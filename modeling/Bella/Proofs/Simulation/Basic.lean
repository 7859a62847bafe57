import Bella.Proofs.Run
import Bella.Proofs.Value.Related

/-!
# Two runs side by side

A coupling says what two runs have to do with one another: which worlds they may stand in at the
same time, what they do to these worlds, and how they halt. Two actions agree under a coupling if,
started in two worlds, both go on with related results or both halt alike. Some halts of the first
run may be excused; what the second run does is then left open.

Agreement is kept by sequencing, so the agreement of two programs follows from that of their
actions. A property of a single run is the agreement of a run with itself.

## Main definitions

* `Bella.Coupling`: what two runs have to do with one another.
* `Bella.Coupling.Agrees`: two actions, started in two worlds, agree.

## Main results

* `Bella.Coupling.Agrees.bind`: agreement is kept by sequencing.
* `Bella.Coupling.Agrees.within`: agreement is kept by locating errors.
* `Bella.Coupling.Agrees.ends`: actions that agree end alike.
-/

namespace Bella

/-- A comparison of halts in which errors whose causes lie in values and bindings alone are the same
as themselves, and so are the halts that cut a run off. -/
structure Halt.IsComparison (halts : Halt → Halt → Prop) : Prop where
  ordinary : ∀ {c : Cause}, c.isOrdinary = true →
    halts (.error { cause := c }) (.error { cause := c })
  overflow : halts .overflow .overflow
  unfinished : halts .unfinished .unfinished

theorem Halt.isComparison_eq : Halt.IsComparison Eq where
  ordinary _ := rfl
  overflow := rfl
  unfinished := rfl

/-- What two runs have to do with one another. -/
structure Coupling where
  /-- The worlds that the runs may stand in at the same time. -/
  worlds : World → World → Prop
  /-- What the runs may do, together, to two worlds. -/
  grows : World → World → World → World → Prop
  /-- The halts of the two runs that count as the same. -/
  halts : Halt → Halt → Prop
  /-- The halts of the first run after which the second one may do anything. -/
  excused : Halt → Prop
  grows_refl : ∀ w w', grows w w' w w'
  grows_trans : ∀ {w w' v v' u u'}, grows w w' v v' → grows v v' u u' → grows w w' u u'
  comparison : Halt.IsComparison halts

namespace Coupling

variable {α β γ δ : Type} {C : Coupling} {ρ : α → β → Prop} {τ : γ → δ → Prop} {x : Run α}
  {y : Run β} {w w' : World}

/-- How two actions that were started in the worlds `w` and `w'` may end. -/
inductive Outcome (C : Coupling) (ρ : α → β → Prop) (w w' : World) :
    EStateM.Result Halt World α → EStateM.Result Halt World β → Prop
  | ok {a : α} {b : β} {v v' : World} (hresult : ρ a b) (hworlds : C.worlds v v')
      (hgrows : C.grows w w' v v') : Outcome C ρ w w' (.ok a v) (.ok b v')
  | error {h h' : Halt} {v v' : World} (hhalts : C.halts h h') (hworlds : C.worlds v v')
      (hgrows : C.grows w w' v v') : Outcome C ρ w w' (.error h v) (.error h' v')
  | excused {h : Halt} {v : World} {r : EStateM.Result Halt World β} (hexcused : C.excused h) :
      Outcome C ρ w w' (.error h v) r

/-- Two actions, started in the worlds `w` and `w'`, agree. -/
def Agrees (C : Coupling) (ρ : α → β → Prop) (x : Run α) (y : Run β) (w w' : World) : Prop :=
  C.Outcome ρ w w' (x w) (y w')

/-- An outcome may be seen from worlds further back. -/
theorem Outcome.trans {v v' : World} {r : EStateM.Result Halt World α}
    {r' : EStateM.Result Halt World β} (h : C.Outcome ρ v v' r r') (hgrows : C.grows w w' v v') :
    C.Outcome ρ w w' r r' := by
  cases h with
  | ok hresult hworlds hmore => exact .ok hresult hworlds (C.grows_trans hgrows hmore)
  | error hhalts hworlds hmore => exact .error hhalts hworlds (C.grows_trans hgrows hmore)
  | excused hexcused => exact .excused hexcused

namespace Agrees

theorem pure {a : α} {b : β} (hresult : ρ a b) (hworlds : C.worlds w w') :
    C.Agrees ρ (Pure.pure a) (Pure.pure b) w w' :=
  .ok hresult hworlds (C.grows_refl w w')

theorem throw {h h' : Halt} (hhalts : C.halts h h') (hworlds : C.worlds w w') :
    C.Agrees ρ (MonadExcept.throw h) (MonadExcept.throw h') w w' :=
  .error hhalts hworlds (C.grows_refl w w')

/-- Actions in sequence agree if the first ones do and the rest does after them, wherever they
led. -/
theorem bind {f : α → Run γ} {g : β → Run δ} (hx : C.Agrees ρ x y w w')
    (hf : ∀ a b v v', ρ a b → C.worlds v v' → C.grows w w' v v' → C.Agrees τ (f a) (g b) v v') :
    C.Agrees τ (x >>= f) (y >>= g) w w' := by
  unfold Agrees at hx ⊢
  rw [Run.bind_apply, Run.bind_apply]
  generalize x w = r, y w' = r' at hx ⊢
  cases hx with
  | ok hresult hworlds hgrows => exact (hf _ _ _ _ hresult hworlds hgrows).trans hgrows
  | error hhalts hworlds hgrows => exact .error hhalts hworlds hgrows
  | excused hexcused => exact .excused hexcused

/-- Halts may be changed on both sides in a way that keeps them the same. -/
theorem adapt {g g' : Halt → Halt} (hx : C.Agrees ρ x y w w')
    (hhalts : ∀ h h', C.halts h h' → C.halts (g h) (g' h'))
    (hexcused : ∀ h, C.excused h → C.excused (g h)) :
    C.Agrees ρ (EStateM.adaptExcept g x) (EStateM.adaptExcept g' y) w w' := by
  unfold Agrees at hx ⊢
  rw [Run.adaptExcept_apply, Run.adaptExcept_apply]
  generalize x w = r, y w' = r' at hx ⊢
  cases hx with
  | ok hresult hworlds hgrows => exact .ok hresult hworlds hgrows
  | error h hworlds hgrows => exact .error (hhalts _ _ h) hworlds hgrows
  | excused h => exact .excused (hexcused _ h)

/-- Errors may be located on both sides in a way that keeps them the same. -/
theorem within {n n' : Node} (hx : C.Agrees ρ x y w w')
    (hhalts : ∀ h h', C.halts h h' → C.halts (h.locate n.position) (h'.locate n'.position))
    (hexcused : ∀ h, C.excused h → C.excused (h.locate n.position)) :
    C.Agrees ρ (Run.within n x) (Run.within n' y) w w' :=
  hx.adapt hhalts hexcused

/-- Unless the first action ends in a way that is excused, both end alike and in corresponding
worlds. -/
theorem ends (h : C.Agrees ρ x y w w') (hexcused : ∀ k, x.outcome w = .error k → ¬ C.excused k) :
    C.worlds (x.after w) (y.after w') ∧
      ((∃ a b, x.outcome w = .ok a ∧ y.outcome w' = .ok b ∧ ρ a b) ∨
        ∃ k k', x.outcome w = .error k ∧ y.outcome w' = .error k' ∧ C.halts k k') := by
  unfold Agrees at h
  unfold Run.outcome Run.after at *
  generalize x w = r, y w' = r' at h hexcused ⊢
  cases h with
  | ok hresult hworlds _ => exact ⟨hworlds, .inl ⟨_, _, rfl, rfl, hresult⟩⟩
  | error hhalts hworlds _ => exact ⟨hworlds, .inr ⟨_, _, rfl, rfl, hhalts⟩⟩
  | excused h => exact absurd h (hexcused _ rfl)

/-- Unless the first action ends in a way that is excused, both do to their worlds what the coupling
allows. -/
theorem grows (h : C.Agrees ρ x y w w') (hexcused : ∀ k, x.outcome w = .error k → ¬ C.excused k) :
    C.grows w w' (x.after w) (y.after w') := by
  unfold Agrees at h
  unfold Run.outcome at hexcused
  unfold Run.after
  generalize x w = r, y w' = r' at h hexcused ⊢
  cases h with
  | ok _ _ hgrows => exact hgrows
  | error _ _ hgrows => exact hgrows
  | excused h => exact absurd h (hexcused _ rfl)

/-! ### Checks -/

theorem fail {c : Cause} (hc : c.isOrdinary = true) (hworlds : C.worlds w w') :
    C.Agrees ρ (Run.fail c) (Run.fail c) w w' :=
  throw (C.comparison.ordinary hc) hworlds

theorem check {r : Except Cause α} {r' : Except Cause β} (h : Check.Alike ρ r r')
    (hworlds : C.worlds w w') : C.Agrees ρ (Run.check r) (Run.check r') w w' := by
  cases h with
  | ok h => exact pure h hworlds
  | error h => exact fail h hworlds

theorem checkWithin {r : Option (Except Cause α)} {r' : Option (Except Cause β)}
    (h : Option.Rel (Check.Alike ρ) r r') (hworlds : C.worlds w w') :
    C.Agrees ρ (Run.checkWithin r) (Run.checkWithin r') w w' := by
  cases h with
  | some h => exact check h hworlds
  | none => exact throw C.comparison.overflow hworlds

end Agrees
end Coupling
end Bella
