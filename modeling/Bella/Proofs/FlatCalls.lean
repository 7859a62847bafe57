import Bella.Proofs.Ground
import Bella.Proofs.Settling
import Mathlib.Data.Finset.Card
import Mathlib.Data.Finset.Dedup

/-!
# Calls under flat scoping

Under flat scoping a call binds its parameters among the globals, where they stay. Nothing removes a
binding, and a call is refused if one of its parameters is bound already. So each name is bound as a
parameter at most once in a run, and the calls that bind a parameter are no more than the names of
parameters in the program.

If every function has a parameter, each call that is entered uses up a name. Then calls lie inside
one another no deeper than there are names, and every expression settles: however deep the host lets
it go, its evaluation ends, by induction on the names that are not bound yet.

## Main definitions

* `Bella.World.callsSince`: the parameters of the calls that a world has noted since some record.
* `Bella.FlatRun`, `Bella.FlatRun.Holds`: a flat run on its ground, and what it keeps.
* `Bella.Activity.ofProgram`: the execution of a program that is given a fresh frame.

## Main results

* `Bella.FlatRun.Holds.enterCall_ok`: a call binds names that were not bound.
* `Bella.FlatRun.Holds.eval_settles`: expressions settle if every function has a parameter.
* `Bella.interpret_flat_binds_parameters_once`: what a flat run can call.
-/

namespace Bella

/-! ### Calls that were noted -/

/-- The parameters of the call that a record notes. -/
def Record.calledParameters? : Record → Option (List String)
  | .called _ parameters _ => some parameters
  | .interpreting _ | .declared _ | .declaredFunction .. | .finished _ => none

/-- The parameters of the calls that were noted after the first `start` records, oldest first. -/
def World.callsSince (start : Nat) (w : World) : List (List String) :=
  (w.records.toList.drop start).filterMap Record.calledParameters?

theorem World.callsSince_noted {start : Nat} {w : World} (hstart : start ≤ w.records.size)
    (r : Record) :
    (w.noted r).callsSince start = w.callsSince start ++ r.calledParameters?.toList := by
  have hlength : start ≤ w.records.toList.length := hstart
  simp only [callsSince, noted, Array.toList_push, List.drop_append_of_le_length hlength,
    List.filterMap_append]
  cases h : r.calledParameters? <;> simp [h]

/-! ### What a flat run keeps -/

/-- A flat run: the ground that it stands on, the lists of parameters of the functions that it may
declare, and the number of records that were noted before it. -/
structure FlatRun where
  /-- The frames of the run. -/
  ground : Ground
  /-- The options of the run. -/
  options : Options
  /-- The lists of parameters of functions. -/
  parameters : List (List String)
  /-- The number of records before the run. -/
  start : Nat
  flat : options.scoping = .flat

namespace FlatRun

variable (R : FlatRun)

/-- The closure was declared among the globals, with one of the lists of parameters. -/
def Declares (c : Closure) : Prop := c.frame = some R.ground.globals ∧ c.parameters ∈ R.parameters

/-- All parameters of calls since the start are different from one another, and they are bound among
the globals. -/
structure Holds (w : World) : Prop where
  ground : R.ground.Holds R.options w.store
  globals : ∀ x v, R.ground.global? w.store x = some v → v.HoldsOnly R.Declares
  behind : ∀ x v, R.ground.prelude? w.store x = some v → v.HoldsOnly R.Declares
  start_le : R.start ≤ w.records.size
  listed : ∀ ps ∈ w.callsSince R.start, ps ∈ R.parameters
  nodup : (w.callsSince R.start).flatten.Nodup
  bound : ∀ x ∈ (w.callsSince R.start).flatten, w.store.binds R.ground.globals x = true

/-- Records are kept, and global names stay bound. -/
structure Grows (w v : World) : Prop where
  records : w.records.toList <+: v.records.toList
  binds : ∀ x, w.store.binds R.ground.globals x = true → v.store.binds R.ground.globals x = true

variable {R} {w v u : World}

theorem Grows.refl (w : World) : R.Grows w w := ⟨List.prefix_rfl, fun _ => id⟩

theorem Grows.trans (h : R.Grows w v) (h' : R.Grows v u) : R.Grows w u :=
  ⟨h.records.trans h'.records, fun x hx => h'.binds x (h.binds x hx)⟩

theorem Grows.callsSince_prefix (h : R.Grows w v) :
    w.callsSince R.start <+: v.callsSince R.start :=
  (h.records.drop R.start).filterMap _

/-- A step that notes no call keeps what holds, if values and names do. -/
theorem Holds.step (h : R.Holds w) (hground : R.ground.Holds R.options v.store)
    (hglobals : ∀ x a, R.ground.global? v.store x = some a → a.HoldsOnly R.Declares)
    (hbehind : ∀ x a, R.ground.prelude? v.store x = some a → a.HoldsOnly R.Declares)
    (hcalls : v.callsSince R.start = w.callsSince R.start) (hgrows : R.Grows w v) : R.Holds v := by
  refine ⟨hground, hglobals, hbehind, ?_, ?_, ?_, fun x hx => ?_⟩
  · exact h.start_le.trans hgrows.records.length_le
  · rw [hcalls]
    exact h.listed
  · rw [hcalls]
    exact h.nodup
  · rw [hcalls] at hx
    exact hgrows.binds x (h.bound x hx)

theorem Holds.noted (h : R.Holds w) {r : Record} (hr : r.calledParameters? = none) :
    R.Holds (w.noted r) ∧ R.Grows w (w.noted r) := by
  have hgrows : R.Grows w (w.noted r) := ⟨by simp [World.noted], fun _ => id⟩
  refine ⟨h.step h.ground h.globals h.behind ?_ hgrows, hgrows⟩
  rw [World.callsSince_noted h.start_le, hr]
  simp

/-- Binding a global name that is free. -/
theorem Holds.bind (h : R.Holds w) (x : String) {a : Value} (ha : a.HoldsOnly R.Declares)
    (n : Nat) :
    R.Holds { w with store := w.store.bind R.ground.globals x a, issued := n } ∧
      R.Grows w { w with store := w.store.bind R.ground.globals x a, issued := n } := by
  obtain ⟨F, hF, -⟩ := h.ground.globals
  have hgrows : R.Grows w { w with store := w.store.bind R.ground.globals x a, issued := n } := by
    refine ⟨List.prefix_rfl, fun y hy => ?_⟩
    rw [Store.binds_eq_isSome_own?] at hy ⊢
    rw [Store.own?_bind hF]
    split
    · rfl
    · exact hy
  refine ⟨h.step (h.ground.bind x a) (fun y b hb => ?_) (fun y b hb => ?_) rfl hgrows, hgrows⟩
  · rw [h.ground.global?_bind] at hb
    split at hb
    · cases hb
      exact ha
    · exact h.globals y b hb
  · rw [h.ground.prelude?_bind] at hb
    exact h.behind y b hb

private theorem own?_update_cases {s : Store} {i j : FrameId} {x y : String} {a b : Value}
    (h : (s.update i x a).own? j y = some b) : b = a ∨ s.own? j y = some b := by
  rw [Store.own?_update] at h
  split at h
  · obtain ⟨_, -, rfl⟩ := Option.map_eq_some_iff.mp h
    exact .inl rfl
  · exact .inr h

/-- Assigning to a name, wherever it is bound. -/
theorem Holds.update (h : R.Holds w) (i : FrameId) (x : String) {a : Value}
    (ha : a.HoldsOnly R.Declares) :
    R.Holds { w with store := w.store.update i x a } ∧
      R.Grows w { w with store := w.store.update i x a } := by
  have hgrows : R.Grows w { w with store := w.store.update i x a } := by
    refine ⟨List.prefix_rfl, fun y hy => ?_⟩
    rw [Store.binds_eq_isSome_own?] at hy ⊢
    rw [Store.own?_update]
    split
    · rwa [Option.isSome_map]
    · exact hy
  refine ⟨h.step (h.ground.update i x a) (fun y b hb => ?_) (fun y b hb => ?_) rfl hgrows, hgrows⟩
  · obtain rfl | hb := own?_update_cases hb
    · exact ha
    · exact h.globals y b hb
  · obtain ⟨j, hj, hb⟩ := Option.bind_eq_some_iff.mp hb
    obtain rfl | hb := own?_update_cases hb
    · exact ha
    · exact h.behind y b (Option.bind_eq_some_iff.mpr ⟨j, hj, hb⟩)

/-! ### Entering a call -/

section Enter

variable {D : Frame} {ps : List String} {vs : List Value}

private theorem binds_replace (hD : w.store.get? R.ground.globals = some D) (G : Frame)
    (x : String) : (w.replace R.ground.globals G).store.binds R.ground.globals x = G.binds x := by
  simp [Store.binds, World.replace, Store.get?_replace, hD]

private theorem grows_replace (hD : w.store.get? R.ground.globals = some D)
    (bs : List (String × Value)) : R.Grows w (w.replace R.ground.globals (D.bindAll bs).1) := by
  refine ⟨List.prefix_rfl, fun x hx => ?_⟩
  rw [binds_replace hD]
  refine Frame.binds_bindAll ?_ bs
  simpa [Store.binds, hD] using hx

/-- Taking in parameters as globals, as far as they do not collide. -/
private theorem Holds.replace (h : R.Holds w) (hD : w.store.get? R.ground.globals = some D)
    (ps : List String) (hvs : ∀ v ∈ vs, v.HoldsOnly R.Declares) :
    R.Holds (w.replace R.ground.globals (D.bindAll (ps.zip vs)).1) := by
  obtain ⟨F, hF, hparent, hoptions⟩ := h.ground.globals
  obtain rfl : D = F := Option.some.inj (hD.symm.trans hF)
  obtain ⟨hp, -, ho⟩ := Frame.bindAll_shape D (ps.zip vs)
  refine h.step (h.ground.replace (hp.trans hparent) (ho.trans hoptions)) (fun y b hb => ?_)
    (fun y b hb => ?_) rfl (grows_replace hD _)
  · rw [World.replace, h.ground.global?_replace] at hb
    obtain hold | hmem := Frame.mem_of_get?_bindAll hb
    · exact h.globals y b ((Store.own?_of_get? hD y).trans hold)
    · exact hvs b (List.of_mem_zip hmem).2
  · rw [World.replace, Ground.prelude?_replace] at hb
    exact h.behind y b hb

/-- Parameters that were taken in without collision are new names. -/
theorem bound_of_bindAll (hlength : vs.length = ps.length)
    (hnone : (D.bindAll (ps.zip vs)).2 = none) :
    ps.Nodup ∧ (∀ x ∈ ps, D.binds x = false) ∧
      ∀ x ∈ ps, (D.bindAll (ps.zip vs)).1.binds x = true := by
  have hfst : (ps.zip vs).map Prod.fst = ps := List.map_fst_zip (Nat.le_of_eq hlength.symm)
  have hrepeated := Frame.firstRepeated_of_bindAll hnone
  rw [hfst] at hrepeated
  refine ⟨(nodup_of_firstRepeated hrepeated).1, fun x hx => ?_, fun x hx => ?_⟩
  · have hsome := isSome_lookup_zip hlength hx
    refine Bool.eq_false_iff.mpr fun hbinds => ?_
    rw [Frame.lookup_eq_none_of_bindAll hnone hbinds] at hsome
    cases hsome
  · rw [Frame.binds_eq_isSome_get?, Frame.get?_bindAll hnone, Option.isSome_or,
      isSome_lookup_zip hlength hx, Bool.true_or]

variable {k : Closure} {x : String}

/-- A flat run enters a closure by binding the parameters among the globals. -/
private theorem Holds.enterCall_eq (h : R.Holds w) (hk : R.Declares k)
    (hlength : vs.length = k.parameters.length) (hD : w.store.get? R.ground.globals = some D) :
    enterCall x k vs R.ground.globals w =
      match (D.bindAll (k.parameters.zip vs)).2 with
      | some y => .error (.error { cause := .alreadyDeclared y .variable })
          (w.replace R.ground.globals (D.bindAll (k.parameters.zip vs)).1)
      | none => .ok R.ground.globals
          ((w.replace R.ground.globals (D.bindAll (k.parameters.zip vs)).1).noted
            (.called x k.parameters .flat)) := by
  have hscoping : (w.store.options R.ground.globals).scoping = .flat := by
    rw [Ground.Within.globals.options_eq h.ground, R.flat]
  have hhome : k.home w.store R.ground.globals = R.ground.globals := by
    rw [Closure.home, hk.1, Option.getD_some]
  exact enterCall_flat hlength hscoping hhome hD

/-- Parameters that were taken in and noted. -/
private theorem Holds.noted_call (h : R.Holds w) (hk : R.Declares k)
    (hvs : ∀ v ∈ vs, v.HoldsOnly R.Declares) (hlength : vs.length = k.parameters.length)
    (hD : w.store.get? R.ground.globals = some D)
    (hnone : (D.bindAll (k.parameters.zip vs)).2 = none) :
    R.Holds ((w.replace R.ground.globals (D.bindAll (k.parameters.zip vs)).1).noted
      (.called x k.parameters .flat)) := by
  obtain ⟨hnodup, hfree, hbound⟩ := bound_of_bindAll hlength hnone
  have hreplaced := h.replace hD k.parameters hvs
  let u := w.replace R.ground.globals (D.bindAll (k.parameters.zip vs)).1
  have hcalls : (u.noted (.called x k.parameters .flat)).callsSince R.start =
      w.callsSince R.start ++ [k.parameters] := World.callsSince_noted hreplaced.start_le _
  refine ⟨hreplaced.ground, hreplaced.globals, hreplaced.behind, ?_, ?_, ?_, ?_⟩
  · exact hreplaced.start_le.trans (by simp [World.noted])
  · intro ps hps
    rw [hcalls] at hps
    obtain hold | hnew := List.mem_append.mp hps
    · exact h.listed ps hold
    · exact List.mem_singleton.mp hnew ▸ hk.2
  · rw [hcalls, List.flatten_append, List.flatten_singleton]
    refine List.nodup_append.mpr ⟨h.nodup, hnodup, fun y hy z hz hyz => ?_⟩
    have hbinds : D.binds y = true := by
      simpa [Store.binds, hD] using h.bound y hy
    rw [hyz, hfree z hz] at hbinds
    cases hbinds
  · intro y hy
    rw [hcalls, List.flatten_append, List.flatten_singleton] at hy
    obtain hold | hnew := List.mem_append.mp hy
    · exact (grows_replace hD _).binds y (h.bound y hold)
    · exact (binds_replace hD _ y).trans (hbound y hnew)

/-- How a flat run enters a closure: the parameters were not bound before, they are bound now, and
the call is noted. -/
theorem Holds.enterCall_ok (h : R.Holds w) (hk : R.Declares k)
    (hvs : ∀ v ∈ vs, v.HoldsOnly R.Declares) {t : FrameId}
    (hentered : enterCall x k vs R.ground.globals w = .ok t v) :
    t = R.ground.globals ∧ R.Holds v ∧ R.Grows w v ∧
      v.callsSince R.start = w.callsSince R.start ++ [k.parameters] ∧
      ∀ y ∈ k.parameters, w.store.binds R.ground.globals y = false ∧
        v.store.binds R.ground.globals y = true := by
  obtain ⟨D, hD, -⟩ := h.ground.globals
  by_cases hlength : vs.length = k.parameters.length
  · rw [h.enterCall_eq hk hlength hD] at hentered
    cases hnone : (D.bindAll (k.parameters.zip vs)).2 with
    | some y =>
      rw [hnone] at hentered
      cases hentered
    | none =>
      rw [hnone] at hentered
      cases hentered
      obtain ⟨-, hfree, hbound⟩ := bound_of_bindAll hlength hnone
      have hreplaced := h.replace hD k.parameters hvs
      refine ⟨rfl, h.noted_call hk hvs hlength hD hnone, ?_, ?_, fun y hy => ⟨?_, ?_⟩⟩
      · exact (grows_replace hD _).trans ⟨by simp [World.noted], fun _ => id⟩
      · exact World.callsSince_noted hreplaced.start_le _
      · simpa [Store.binds, hD] using hfree y hy
      · exact (binds_replace hD _ y).trans (hbound y hy)
  · rw [enterCall_of_length_ne hlength] at hentered
    cases hentered

/-- A call that is not entered keeps what holds, too. -/
theorem Holds.enterCall_error (h : R.Holds w) (hk : R.Declares k)
    (hvs : ∀ v ∈ vs, v.HoldsOnly R.Declares) {e : Halt}
    (hentered : enterCall x k vs R.ground.globals w = .error e v) : R.Holds v ∧ R.Grows w v := by
  obtain ⟨D, hD, -⟩ := h.ground.globals
  by_cases hlength : vs.length = k.parameters.length
  · rw [h.enterCall_eq hk hlength hD] at hentered
    split at hentered
    · cases hentered
      exact ⟨h.replace hD _ hvs, grows_replace hD _⟩
    · cases hentered
  · rw [enterCall_of_length_ne hlength] at hentered
    cases hentered
    exact ⟨h, .refl w⟩

/-- A closure cannot be entered again, nor any other one that shares a parameter with a call since
the start. -/
theorem Holds.enterCall_shared (h : R.Holds w) (hk : R.Declares k)
    (hlength : vs.length = k.parameters.length) {y : String}
    (hy : y ∈ (w.callsSince R.start).flatten) (hyk : y ∈ k.parameters) :
    ∃ z ∈ k.parameters, ∃ v, enterCall x k vs R.ground.globals w =
      .error (.error { cause := .alreadyDeclared z .variable }) v := by
  obtain ⟨D, hD, -⟩ := h.ground.globals
  rw [h.enterCall_eq hk hlength hD]
  cases hnone : (D.bindAll (k.parameters.zip vs)).2 with
  | some z =>
    have hz := Frame.mem_of_bindAll hnone
    rw [List.map_fst_zip (Nat.le_of_eq hlength.symm)] at hz
    exact ⟨z, hz, _, rfl⟩
  | none =>
    obtain ⟨-, hfree, -⟩ := bound_of_bindAll hlength hnone
    have hbinds : D.binds y = true := by
      simpa [Store.binds, hD] using h.bound y hy
    rw [hfree y hyk] at hbinds
    cases hbinds

end Enter

/-! ### Programs keep it -/

variable (R)

/-- What a flat run keeps, as an invariant of programs. -/
def invariant : ProgramInvariant where
  holds := R.Holds
  scope f _ := f = R.ground.globals
  closures := R.Declares
  grows := R.Grows
  grows_refl := .refl
  grows_trans := .trans
  scope_grows hscope _ := hscope
  lookup := by
    rintro _ x w v hw rfl hx
    rw [hw.ground.lookup?_eq] at hx
    obtain hglobal | ⟨-, hprelude⟩ := Option.or_eq_some_iff.mp hx
    · exact hw.globals x v hglobal
    · exact hw.behind x v hprelude
  enter := by
    rintro x k vs _ w hw rfl hk hvs -
    unfold Run.Ends
    split
    · rename_i t v hentered
      obtain ⟨rfl, hholds, hgrows, -⟩ := hw.enterCall_ok hk hvs hentered
      exact ⟨hholds, hgrows, rfl⟩
    · rename_i e v hentered
      exact hw.enterCall_error hk hvs hentered
  top f := f = R.ground.globals
  functions ps _ := ps ∈ R.parameters
  changes := R.Grows
  changes_refl := .refl
  changes_trans := .trans
  changes_of_grows := id
  scope_top htop _ := htop
  start := by
    rintro _ w v - hw rfl
    exact hw.noted rfl
  finish := by
    rintro done w v hw rfl
    exact hw.noted rfl
  declare := by
    rintro _ x a w v rfl hw ha - rfl
    obtain ⟨hbound, hgrows⟩ := hw.bind x ha w.issued
    obtain ⟨hnoted, hgrows'⟩ := hbound.noted (r := .declared x) rfl
    exact ⟨hnoted, hgrows.trans hgrows'⟩
  declareFunction := by
    rintro _ x ps body k w v rfl hw hps - rfl rfl
    have hk : Value.HoldsOnly R.Declares
        (.closure ⟨w.issued, ps, body, some R.ground.globals⟩) := by
      intro c hc
      cases List.mem_singleton.mp hc
      exact ⟨rfl, hps⟩
    obtain ⟨hbound, hgrows⟩ := hw.bind x hk (w.issued + 1)
    obtain ⟨hnoted, hgrows'⟩ := hbound.noted (r := .declaredFunction x ps.length) rfl
    exact ⟨hnoted, hgrows.trans hgrows'⟩
  assign := by
    rintro _ x i a w v rfl hw ha - rfl
    exact hw.update i x ha
  print := by
    rintro _ line w v - hw rfl
    exact ⟨hw.step hw.ground hw.globals hw.behind rfl ⟨List.prefix_rfl, fun _ => id⟩,
      ⟨List.prefix_rfl, fun _ => id⟩⟩

/-! ### How many calls there are, and how deep they lie -/

/-- The names of parameters. -/
def names : Finset String := R.parameters.flatten.toFinset

variable {R}

private theorem length_filter_le_flatten (pss : List (List String)) :
    (pss.filter (· ≠ [])).length ≤ pss.flatten.length := by
  induction pss with
  | nil => exact Nat.le_refl 0
  | cons ps pss ih =>
    cases ps with
    | nil => simpa using ih
    | cons x xs =>
      simp only [ne_eq, reduceCtorEq, not_false_eq_true, decide_true, List.filter_cons_of_pos,
        List.length_cons, List.flatten_cons, List.length_append] at ih ⊢
      omega

/-- Calls that bind a parameter are no more than the names of parameters. -/
theorem Holds.length_calls_le (h : R.Holds w) :
    ((w.callsSince R.start).filter (· ≠ [])).length ≤ R.names.card := by
  have hsubset : (w.callsSince R.start).flatten.toFinset ⊆ R.names := by
    intro x hx
    obtain ⟨ps, hps, hx⟩ := List.mem_flatten.mp (List.mem_toFinset.mp hx)
    exact List.mem_toFinset.mpr (List.mem_flatten.mpr ⟨ps, h.listed ps hps, hx⟩)
  calc ((w.callsSince R.start).filter (· ≠ [])).length
      ≤ (w.callsSince R.start).flatten.length := length_filter_le_flatten _
    _ = (w.callsSince R.start).flatten.toFinset.card := (List.toFinset_card_of_nodup h.nodup).symm
    _ ≤ R.names.card := Finset.card_le_card hsubset

/-- Each closure that is entered has been noted, so calls are no deeper than they are many. -/
theorem depth_le_calls {a b : Activity} (ha : R.invariant.Covers a) {depth : Nat}
    (hreaches : a.Reaches depth b) : depth ≤ (b.world.callsSince R.start).length := by
  induction hreaches with
  | refl => exact Nat.zero_le _
  | part hb hpart ih =>
    have hgrows := (R.invariant.covers_of_part (R.invariant.covers_of_reaches ha hb).1 hpart).2
    exact ih.trans (Grows.callsSince_prefix hgrows).length_le
  | enters hb henters ih =>
    have hcovers := (R.invariant.covers_of_reaches ha hb).1
    obtain ⟨hcall, hentered⟩ := henters
    obtain ⟨hw, rfl⟩ := hcovers
    obtain ⟨hk, hvs, hholds, hgrows⟩ := R.invariant.call_keeps hw rfl hcall
    obtain ⟨-, -, -, hcalls, -⟩ := Holds.enterCall_ok hholds hk hvs hentered
    have hlength := (Grows.callsSince_prefix hgrows).length_le
    simp only [Activity.world, hcalls, List.length_append, List.length_singleton] at ih ⊢
    omega

/-- If every function has a parameter, calls are no deeper than there are names. -/
theorem depth_le_names {a b : Activity} (ha : R.invariant.Covers a) {depth : Nat}
    (hreaches : a.Reaches depth b) (hparameters : ∀ ps ∈ R.parameters, ps ≠ []) :
    depth ≤ R.names.card := by
  have hb : R.Holds b.world := (R.invariant.covers_of_reaches ha hreaches).1.holds
  have hall : (b.world.callsSince R.start).filter (· ≠ []) = b.world.callsSince R.start :=
    List.filter_eq_self.mpr fun ps hps => decide_eq_true (hparameters ps (hb.listed ps hps))
  calc depth ≤ (b.world.callsSince R.start).length := depth_le_calls ha hreaches
    _ = ((b.world.callsSince R.start).filter (· ≠ [])).length := by rw [hall]
    _ ≤ R.names.card := hb.length_calls_le

/-- An expression that calls a closure which shares a parameter with an earlier call ends with an
error. -/
theorem halts_of_shared {a : Activity} (ha : R.invariant.Covers a) {x y : String} {k : Closure}
    {vs : List Value} (hcalls : a.Calls x k vs v) (hlength : vs.length = k.parameters.length)
    (hy : y ∈ (v.callsSince R.start).flatten) (hyk : y ∈ k.parameters) :
    ∃ z ∈ k.parameters, ∃ e u, a.Halts (.error e) u ∧ e.cause = .alreadyDeclared z .variable := by
  obtain ⟨hcall⟩ := hcalls
  obtain ⟨hw, rfl⟩ := ha
  obtain ⟨hk, -, hholds, -⟩ := R.invariant.call_keeps hw rfl hcall
  obtain ⟨z, hz, u, hrefused⟩ := Holds.enterCall_shared (x := x) hholds hk hlength hy hyk
  exact ⟨z, hz, _, u, Activity.halts_of_calls (.call hcall) hrefused, rfl⟩

/-! ### Expressions settle -/

variable (R) in
/-- The names of parameters that are not bound yet. -/
def unbound (w : World) : Finset String :=
  R.names.filter fun x => w.store.binds R.ground.globals x = false

/-- Entering a closure that has a parameter leaves fewer names unbound. -/
private theorem card_unbound_lt {k : Closure} (hk : R.Declares k) (hparameters : k.parameters ≠ [])
    (hgrows : R.Grows w u)
    (hbound : ∀ y ∈ k.parameters, w.store.binds R.ground.globals y = false ∧
      u.store.binds R.ground.globals y = true) : (R.unbound u).card < (R.unbound w).card := by
  obtain ⟨y, hy⟩ := List.exists_mem_of_ne_nil _ hparameters
  have hname : y ∈ R.names := List.mem_toFinset.mpr (List.mem_flatten.mpr ⟨_, hk.2, hy⟩)
  refine Finset.card_lt_card (Finset.ssubset_iff_of_subset ?_ |>.mpr ⟨y, ?_, ?_⟩)
  · intro x hx
    obtain ⟨hx, hunbound⟩ := Finset.mem_filter.mp hx
    refine Finset.mem_filter.mpr ⟨hx, Bool.eq_false_iff.mpr fun hbinds => ?_⟩
    rw [hgrows.binds x hbinds] at hunbound
    cases hunbound
  · exact Finset.mem_filter.mpr ⟨hname, (hbound y hy).1⟩
  · intro hmem
    have hunbound := (Finset.mem_filter.mp hmem).2
    rw [(hbound y hy).2] at hunbound
    cases hunbound

/-- If every function has a parameter, every expression settles. The induction is on the number of
names that are not bound yet: the bodies of the closures that are called find fewer of them. -/
theorem Holds.eval_settles (h : R.Holds w) (hparameters : ∀ ps ∈ R.parameters, ps ≠ []) (n : Node) :
    Settles (fun l => eval l n R.ground.globals) w := by
  induction hcount : (R.unbound w).card using Nat.strongRecOn generalizing w n with
  | ind count ih =>
    have hbodies : R.invariant.BodiesSettle R.ground.globals w := by
      intro x k vs v t u hstage hk hvs hentered
      obtain ⟨rfl, hholds, hgrows, -, hbound⟩ := Holds.enterCall_ok hstage.holds hk hvs hentered
      have hfewer : (R.unbound u).card < (R.unbound w).card :=
        card_unbound_lt hk (hparameters _ hk.2) (hstage.grows.trans hgrows) fun y hy =>
          ⟨Bool.eq_false_iff.mpr fun hbinds =>
            Bool.eq_false_iff.mp (hbound y hy).1 (hstage.grows.binds y hbinds), (hbound y hy).2⟩
      exact ih _ (hcount ▸ hfewer) hholds k.body rfl
    exact R.invariant.eval_settles hbodies n w ⟨h, rfl, .refl w⟩

end FlatRun

/-! ### Runs on a fresh frame -/

/-- The distinct names of the parameters of the functions that a tree declares. -/
def Node.functionParameters (n : Node) : Finset String :=
  (n.functions.map Prod.fst).flatten.toFinset

/-- The execution of a program that is given a fresh frame, after its start is noted. -/
def Activity.ofProgram (passes : Nat) (program : Node) (o : Options) (w : World) : Activity :=
  .execution passes programLevels program (Ground.fresh o w).globals
    (((Run.globalFrame o).after w).noted (.interpreting o.scoping))

variable {passes : Nat} {program : Node} {o : Options} {w : World}

/-- The flat run of a program on a fresh frame. -/
def FlatRun.ofProgram (program : Node) {o : Options} (ho : o.scoping = .flat) (w : World) :
    FlatRun where
  ground := Ground.fresh o w
  options := o
  parameters := program.functions.map Prod.fst
  start := w.records.size
  flat := ho

/-- On a fresh frame nothing has been called, and the prelude holds no closures. -/
theorem FlatRun.holds_of_isLaid (ho : o.scoping = .flat) {v : World}
    (h : (Ground.fresh o w).IsLaid o w v) : (FlatRun.ofProgram program ho w).Holds v := by
  have hcalls : v.callsSince w.records.size = [] := by
    rw [World.callsSince, h.records, ← Array.length_toList, List.drop_length]
    rfl
  have hstart : w.records.size ≤ v.records.size := by rw [h.records]
  refine ⟨h.holds, fun x a ha => ?_, fun x a ha => ?_, hstart, ?_, ?_, ?_⟩
  · cases (h.global?_eq x).symm.trans ha
  · exact Options.holdsOnly_of_prelude? ((h.prelude?_eq x).symm.trans ha) _
  · exact fun ps hps => absurd (hcalls ▸ hps) List.not_mem_nil
  · exact hcalls ▸ List.nodup_nil
  · exact fun x hx => absurd (hcalls ▸ hx) List.not_mem_nil

private theorem covers_ofProgram (ho : o.scoping = .flat) :
    (FlatRun.ofProgram program ho w).invariant.Covers (.ofProgram passes program o w) := by
  obtain ⟨v, hv, hlaid⟩ := Run.globalFrame_apply o w
  have hafter : (Run.globalFrame o).after w = v := by rw [Run.after, hv]
  have hholds : (FlatRun.ofProgram program ho w).Holds v := FlatRun.holds_of_isLaid ho hlaid
  refine ⟨?_, rfl, fun q hq => List.mem_map_of_mem hq⟩
  rw [hafter]
  exact (hholds.noted rfl).1

/-- What is executed for a program on a fresh frame halts together with the run. -/
private theorem interpret_of_halts {h : Halt} {v : World}
    (hlabel : program.label? = some StatementForm.program.label)
    (hhalts : (Activity.ofProgram passes program o w).Halts h v) :
    interpret passes program none (some o) w = .error h.leaveProgram v := by
  obtain ⟨u, hu, hlaid⟩ := Run.globalFrame_apply o w
  have hafter : (Run.globalFrame o).after w = u := by rw [Run.after, hu]
  have hoptions : u.store.options (Ground.fresh o w).globals = o :=
    Ground.Within.globals.options_eq hlaid.holds
  have hrun : interpret passes program none (some o) w =
      interpretIn passes program (Ground.fresh o w).globals u := by
    simp only [interpret, prepareFrame, Option.getD_some, Run.bind_apply, hu]
  rw [Activity.ofProgram, hafter] at hhalts
  rw [hrun, interpretIn_apply hlabel, hoptions, hhalts]

/-- **Under flat scoping every parameter is bound at most once.** A program is run with flat options
on a fresh frame. The parameters of all calls that get past the binding of their parameters are
different from one another, so of these calls there are no more with a parameter than the program
has names of parameters. Whatever is evaluated or executed inside the run, a call that has the right
number of arguments and shares a parameter with an earlier one ends with an error that says that a
parameter is declared already, and so does the run. And if every function of the program has a
parameter, calls lie inside one another no deeper than there are names of parameters, and every
expression settles. -/
theorem interpret_flat_binds_parameters_once (passes : Nat) (program : Node) (o : Options)
    (w : World) (ho : o.scoping = .flat) :
    (((interpret passes program none (some o)).after w).callsSince w.records.size).flatten.Nodup ∧
      ((((interpret passes program none (some o)).after w).callsSince w.records.size).filter
        (· ≠ [])).length ≤ program.functionParameters.card ∧
      ∀ depth a, (Activity.ofProgram passes program o w).Reaches depth a →
        (∀ x k vs v y, a.Calls x k vs v → vs.length = k.parameters.length →
          y ∈ (v.callsSince w.records.size).flatten → y ∈ k.parameters →
          ∃ z ∈ k.parameters, ∃ e u, a.Halts (.error e) u ∧ e.cause = .alreadyDeclared z .variable ∧
            (program.label? = some StatementForm.program.label →
              ∃ e', interpret passes program none (some o) w = .error (.error e') u ∧
                e'.cause = e.cause)) ∧
        ((∀ q ∈ program.functions, q.1 ≠ []) →
          depth ≤ program.functionParameters.card ∧
            ∀ n, Settles (fun levels => eval levels n a.frame) a.world) := by
  let R := FlatRun.ofProgram program ho w
  have hroot : R.invariant.Covers (.ofProgram passes program o w) := covers_ofProgram ho
  have hend : R.Holds ((interpret passes program none (some o)).after w) := by
    obtain ⟨v, hlaid, hrun⟩ := interpret_fresh passes program (some o) w
    rw [Run.after_congr hrun]
    exact (R.invariant.interpretIn_keeps passes (fun q hq => List.mem_map_of_mem hq) rfl
      (FlatRun.holds_of_isLaid ho hlaid)).1
  refine ⟨hend.nodup, hend.length_calls_le, fun depth a hreaches => ⟨?_, fun hfunctions => ?_⟩⟩
  · intro x k vs v y hcalls hlength hy hyk
    have hcovers := (R.invariant.covers_of_reaches hroot hreaches).1
    obtain ⟨z, hz, e, u, hhalts, hcause⟩ := FlatRun.halts_of_shared hcovers hcalls hlength hy hyk
    refine ⟨z, hz, e, u, hhalts, hcause, fun hlabel => ?_⟩
    obtain ⟨e', hhalts', hcause'⟩ := hreaches.halts hhalts
    exact ⟨e', interpret_of_halts hlabel hhalts', hcause'⟩
  · have hparameters (ps : List String) (hps : ps ∈ R.parameters) : ps ≠ [] := by
      obtain ⟨q, hq, rfl⟩ := List.mem_map.mp hps
      exact hfunctions q hq
    refine ⟨FlatRun.depth_le_names hroot hreaches hparameters, fun n => ?_⟩
    have hcovers := (R.invariant.covers_of_reaches hroot hreaches).1
    have hframe : a.frame = R.ground.globals := by
      cases a with
      | evaluation levels m f v => exact hcovers.2
      | execution passes levels m f v => exact hcovers.2.1
    rw [hframe]
    exact FlatRun.Holds.eval_settles hcovers.holds hparameters n

/-- A program that calls a function which calls itself. -/
def selfCall : Node :=
  .program (.block
    [.function (.name "f") [.name "x"] (.call (.name "f") [.name "x"]),
     .print (.call (.name "f") [.boolean true])])

/-- The function is entered once, which is as often as there are names of parameters, and where it
is declared its call settles. -/
theorem interpret_flat_binds_parameters_once_of_selfCall :
    ((interpret 1 selfCall none (some { scoping := .flat })).after {}).callsSince 0 = [["x"]] ∧
      selfCall.functionParameters.card = 1 ∧ (∀ q ∈ selfCall.functions, q.1 ≠ []) ∧
      ((((interpret 1 selfCall none (some { scoping := .flat })).after {}).callsSince 0).filter
        (· ≠ [])).length ≤ selfCall.functionParameters.card ∧
      ∃ w, w.store.binds 0 "f" = true ∧
        Settles (fun levels => eval levels (.call (.name "f") [.boolean true]) 0) w := by
  have hfunctions : ∀ q ∈ selfCall.functions, q.1 ≠ [] := by decide
  have hprint : ∃ w, (Activity.ofProgram 1 selfCall { scoping := .flat } {}).Reaches 0
      (.execution 1 (programLevels - 4) (.print (.call (.name "f") [.boolean true])) 0 w) ∧
      w.store.binds 0 "f" = true :=
    ⟨_, .part .refl (.statement (.program rfl (.later rfl .first))), rfl⟩
  obtain ⟨w, hreaches, hbinds⟩ := hprint
  obtain ⟨-, hcount, hinside⟩ :=
    interpret_flat_binds_parameters_once 1 selfCall { scoping := .flat } {} rfl
  exact ⟨rfl, rfl, hfunctions, hcount, w, hbinds, ((hinside 0 _ hreaches).2 hfunctions).2 _⟩

end Bella
