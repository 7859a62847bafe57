import Bella.Proofs.Session

/-!
# The identity of functions

Functions are compared by identity, not by what they compute. However closures travel in a session,
through variables, parameters, arrays and results, two of them are equal if and only if they come from
one and the same execution of a declaration, or were made in one and the same step of the host. A
closure that has just been made is equal to no function that there was before, also if it has the same
parameters and the same body.

## Main definitions

* `Bella.ComesFrom`: the execution that a closure comes from.
* `Bella.Identifies`: equality tells where closures come from.

## Main results

* `Bella.IsHistory.identifies`: a history tells the closures apart that were made.
* `Bella.function_identity`: equal functions come from one making, at every moment of a session.
-/

namespace Bella

/-! ### Where closures come from -/

/-- The closure was made by the execution in the given place of a list. -/
def ComesFrom (made : List Making) (i : Nat) (c : Closure) : Prop :=
  ∃ m, made[i]? = some m ∧ m.closure = c

/-- Equality tells where closures come from. Each of them comes from exactly one execution of a
declaration, or from one step of the host; two are equal if and only if they come from the same one,
and then they have the same parameters, the same body and the same frame. -/
structure Identifies (made : List Making) (present : Closure → Prop) : Prop where
  origin : ∀ c, present c → ∃! i, ComesFrom made i c
  equals_iff : ∀ c d, present c → present d →
    ((Value.closure c).equals (.closure d) = true ↔ ∃ i, ComesFrom made i c ∧ ComesFrom made i d)
  same : ∀ c d, present c → present d → (Value.closure c).equals (.closure d) = true →
    c.parameters = d.parameters ∧ c.body = d.body ∧ c.frame = d.frame

section Identifies

variable {made : List Making} {w : World}

theorem Value.equals_closure_iff {c d : Closure} :
    (Value.closure c).equals (.closure d) = true ↔ c.id = d.id := by
  rw [Value.equals, beq_iff_eq]

/-- Different executions hand out different identities. -/
theorem IsHistory.eq_of_comesFrom (h : IsHistory made w) {i j : Nat} {c d : Closure}
    (hi : ComesFrom made i c) (hj : ComesFrom made j d) (hid : c.id = d.id) : i = j := by
  obtain ⟨m, hm, rfl⟩ := hi
  obtain ⟨m', hm', rfl⟩ := hj
  obtain ⟨hlt, rfl⟩ := List.getElem?_eq_some_iff.mp hm
  obtain ⟨hlt', rfl⟩ := List.getElem?_eq_some_iff.mp hm'
  -- identities rise along the list, so the earlier one of two places has the smaller identity
  have hrising := List.pairwise_iff_getElem.mp h.rising
  rcases Nat.lt_trichotomy i j with hij | hij | hij
  · exact absurd hid (Nat.ne_of_lt (hrising i j hlt hlt' hij))
  · exact hij
  · exact absurd hid.symm (Nat.ne_of_lt (hrising j i hlt' hlt hij))

theorem ComesFrom.eq {i : Nat} {c d : Closure} (hc : ComesFrom made i c)
    (hd : ComesFrom made i d) : c = d := by
  obtain ⟨m, hm, rfl⟩ := hc
  obtain ⟨m', hm', rfl⟩ := hd
  cases hm.symm.trans hm'
  rfl

/-- A history tells the closures apart that were made. -/
theorem IsHistory.identifies (h : IsHistory made w) {present : Closure → Prop}
    (hpresent : ∀ c, present c → IsMade made c) : Identifies made present := by
  have horigin {c : Closure} (hc : present c) : ∃ i, ComesFrom made i c := by
    obtain ⟨m, hm, hmc⟩ := hpresent c hc
    obtain ⟨i, hi⟩ := List.getElem?_of_mem hm
    exact ⟨i, m, hi, hmc⟩
  have hiff {c d : Closure} (hc : present c) (hd : present d) :
      (Value.closure c).equals (.closure d) = true ↔
        ∃ i, ComesFrom made i c ∧ ComesFrom made i d := by
    rw [Value.equals_closure_iff]
    constructor
    · intro hid
      obtain ⟨i, hi⟩ := horigin hc
      obtain ⟨j, hj⟩ := horigin hd
      obtain rfl := h.eq_of_comesFrom hi hj hid
      exact ⟨i, hi, hj⟩
    · rintro ⟨i, hi, hj⟩
      rw [hi.eq hj]
  refine ⟨fun c hc => ?_, fun c d hc hd => hiff hc hd, fun c d hc hd heq => ?_⟩
  · obtain ⟨i, hi⟩ := horigin hc
    exact ⟨i, hi, fun j hj => h.eq_of_comesFrom hj hi rfl⟩
  · obtain ⟨i, hi, hj⟩ := (hiff hc hd).mp heq
    rw [hi.eq hj]
    exact ⟨rfl, rfl, rfl⟩

end Identifies

/-- **Functions are equal if and only if they are the same.** In every session, equality tells where
the closures come from that are in its frames, at any depth, or in the values that the host holds.
Whatever the host does next, the closures that are made are those that declarations inside the step
make, or the step itself. Equality still tells where closures come from while the step is under way:
those in the frames whenever anything inside it begins or ends, those in the values of expressions,
and those that are called, with those in their arguments. And each closure that is made is equal to no
function that there was before: not to one that the session has, not to one in the frames at that
moment, and not to a builtin. -/
theorem function_identity {σ : Session} (hσ : σ.Reachable) :
    Identifies σ.made σ.Has ∧
      ∀ s : Session.Step, σ.Allows s →
        (∀ m, m ∈ s.makings σ.world ↔ s.Makes σ.world m) ∧
        Identifies (σ.made ++ s.makings σ.world) (fun c => σ.Has c ∨ s.Meets σ.world c) ∧
        ∀ m ∈ s.makings σ.world,
          (∀ c, σ.Has c ∨ m.world.store.Has c →
            (Value.closure m.closure).equals (.closure c) = false) ∧
          ∀ b, (Value.closure m.closure).equals (.builtin b) = false := by
  have hsound := hσ.isSound
  refine ⟨hsound.history.identifies fun c hc => hsound.isMade_of_has hc, fun s hs => ?_⟩
  have hvalues := hsound.isMade_of_allows hs
  have hmakes {m : Making} := Session.Step.mem_makings_iff hsound.history hvalues (m := m)
  have hafter := (hsound.after hs).history
  have hnew {c k : Closure} (hc : c.id < k.id) : (Value.closure k).equals (.closure c) = false :=
    Bool.eq_false_iff.mpr fun heq => Nat.ne_of_gt hc (Value.equals_closure_iff.mp heq)
  refine ⟨fun m => hmakes, hafter.identifies fun c hc => ?_,
    fun m hm => ⟨fun c hc => ?_, fun b => rfl⟩⟩
  · obtain hc | hc := hc
    · exact (hsound.isMade_of_has hc).of_subset (List.subset_append_left _ _)
    · exact Session.Step.isMade_of_meets hsound.history hvalues hc
  · obtain hc | hc := hc
    · obtain ⟨m', hm', rfl⟩ := hsound.isMade_of_has hc
      exact hnew ((List.pairwise_append.mp hafter.rising).2.2 m' hm' m hm)
    · exact hnew ((hmakes.mp hm).id_lt hsound.history hvalues hc)

/-- A program with two functions that have the same parameters and the same body. -/
def twinProgram : Node :=
  .program (.block
    [.function (.name "first") [.name "x"] (.name "x"),
     .function (.name "second") [.name "x"] (.name "x"),
     .declaration (.name "both") (.array [.name "first", .name "second"])])

/-- A host runs the program, looks up a function and the array of both, and calls the one function
with the other. -/
def twinSession : Session :=
  [.interpret 1 twinProgram none none, .lookup 0 "first", .lookup 0 "both",
    .evaluate 100 (.call (.name "first") [.name "second"]) 0].foldl Session.after {}

/-- The host then declares such a function itself. -/
def twinStep : Session.Step := .declareFunction 0 "third" ["x"] (.name "x")

theorem twinSession_reachable : twinSession.Reachable := by
  refine .step (.step (.step (.step .start ?_) ?_) ?_) ?_
  all_goals exact Session.allows_of_values_eq_nil rfl

/-- The copy in the array is the function, and the other function is not, although nothing else tells
them apart. The third one is equal to neither. -/
theorem function_identity_of_twins :
    twinSession.Reachable ∧
      (∃ c d, twinSession.held = [.closure c, .array [.closure c, .closure d], .closure d] ∧
        c.parameters = d.parameters ∧ c.body = d.body ∧ c.frame = d.frame ∧
        (Value.closure c).equals (.closure d) = false) ∧
      Identifies twinSession.made twinSession.Has ∧
      ∃ m, twinStep.makings twinSession.world = [m] ∧
        ∀ c, twinSession.Has c → (Value.closure m.closure).equals (.closure c) = false := by
  obtain ⟨hnow, hnext⟩ := function_identity twinSession_reachable
  obtain ⟨-, -, hfresh⟩ := hnext twinStep (Session.allows_of_values_eq_nil rfl)
  refine ⟨twinSession_reachable, ⟨_, _, rfl, rfl, rfl, rfl, rfl⟩, hnow, _, rfl, fun c hc => ?_⟩
  exact (hfresh _ List.mem_cons_self).1 c (.inl hc)

end Bella
