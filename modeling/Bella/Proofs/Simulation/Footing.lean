import Bella.Proofs.Grammar
import Bella.Proofs.Ground

/-!
# Two programs on one ground

Two programs that run in fresh frames stand on the same ground, each in its own world. While they
run, the names that both can see keep corresponding values; other names may be bound in the first
world alone. Every action of a statement keeps it so: either both programs declare or assign a name,
with corresponding values, or both fail. Only a name that is not visible may be refused to the first
program and not to the second one, and that has to be excused.

## Main definitions

* `Bella.Footing`: what two programs on one ground have in common.
* `Bella.Footing.Stands`: two worlds in which the visible names correspond.
* `Bella.Footing.coupling`: the coupling of statements on the ground.

## Main results

* `Bella.Footing.declare_agrees`, `Bella.Footing.declareFunction_agrees`,
  `Bella.Footing.assign_agrees`, `Bella.Footing.print_agrees`: statements keep the footing.
* `Bella.Footing.stands_of_isLaid`: a fresh ground is a footing.
-/

namespace Bella

/-- What two programs on one ground have in common. -/
structure Footing where
  /-- The frames that both programs stand on. -/
  ground : Ground
  /-- The options of the first program. -/
  left : Options
  /-- The options of the second program. -/
  right : Options
  /-- The closures that correspond to one another. -/
  closures : Closure → Closure → Prop
  /-- The names whose values correspond. -/
  visible : String → Prop
  /-- The halts that count as the same. -/
  halts : Halt → Halt → Prop
  /-- The halts of the first program after which the second one may do anything. -/
  excused : Halt → Prop
  sink_eq : left.sink = right.sink
  comparison : Halt.IsComparison halts
  excused_hidden : ∀ {x : String} (what : Declared), ¬ visible x →
    excused (.error { cause := .alreadyDeclared x what })

namespace Footing

variable (Φ : Footing)

/-- Values that are equal up to corresponding closures. -/
def values : Value → Value → Prop := Value.Related Φ.closures

/-- Two worlds with the ground in which the visible names correspond. -/
structure Stands (w w' : World) : Prop where
  printed : w.printed = w'.printed
  issued : w.issued = w'.issued
  holds : Φ.ground.Holds Φ.left w.store
  holds' : Φ.ground.Holds Φ.right w'.store
  globals : ∀ x, Φ.visible x →
    Option.Rel Φ.values (Φ.ground.global? w.store x) (Φ.ground.global? w'.store x)
  behind : ∀ x, Φ.visible x →
    Option.Rel Φ.values (Φ.ground.prelude? w.store x) (Φ.ground.prelude? w'.store x)
  /-- What the second program has declared is bound in the first world, too. -/
  bound : ∀ x, (Φ.ground.global? w'.store x).isSome = true →
    (Φ.ground.global? w.store x).isSome = true

/-- The coupling of statements on the ground. -/
def coupling : Coupling where
  worlds := Φ.Stands
  grows _ _ _ _ := True
  halts := Φ.halts
  excused := Φ.excused
  grows_refl _ _ := trivial
  grows_trans _ _ := trivial
  comparison := Φ.comparison

variable {Φ} {w w' : World} {x : String} {v v' : Value}

/-! ### Looking up -/

/-- A visible name that no call binds has corresponding values, or none in both worlds. -/
theorem Stands.visible_rel (h : Φ.Stands w w') (hx : Φ.visible x) :
    Option.Rel Φ.values
      ((Φ.ground.global? w.store x).or (Φ.ground.prelude? w.store x))
      ((Φ.ground.global? w'.store x).or (Φ.ground.prelude? w'.store x)) :=
  Value.Related.or_rel (h.globals x hx) (h.behind x hx)

/-- Worlds that have got frames and records alone still stand. -/
theorem Stands.extends (h : Φ.Stands w w') {u u' : World} (hu : w.Extends u) (hu' : w'.Extends u') :
    Φ.Stands u u' where
  printed := hu.printed.trans (h.printed.trans hu'.printed.symm)
  issued := hu.issued.trans (h.issued.trans hu'.issued.symm)
  holds := h.holds.kept hu.frames
  holds' := h.holds'.kept hu'.frames
  globals x hx := by
    rw [h.holds.global?_kept hu.frames, h.holds'.global?_kept hu'.frames]
    exact h.globals x hx
  behind x hx := by
    rw [h.holds.prelude?_kept hu.frames, h.holds'.prelude?_kept hu'.frames]
    exact h.behind x hx
  bound x := by
    rw [h.holds.global?_kept hu.frames, h.holds'.global?_kept hu'.frames]
    exact h.bound x

/-! ### Declaring -/

theorem Stands.noted (h : Φ.Stands w w') (r r' : Record) : Φ.Stands (w.noted r) (w'.noted r') :=
  ⟨h.printed, h.issued, h.holds, h.holds', h.globals, h.behind, h.bound⟩

theorem note_agrees (r r' : Record) (h : Φ.Stands w w') :
    Φ.coupling.Agrees Eq (Run.note r) (Run.note r') w w' :=
  .ok rfl (h.noted r r') trivial

/-- Both worlds may bind a name, with corresponding values, and count on. -/
theorem Stands.bind (h : Φ.Stands w w') (hv : Φ.values v v') {n n' : Nat} (hn : n = n') :
    Φ.Stands { w with issued := n, store := w.store.bind Φ.ground.globals x v }
      { w' with issued := n', store := w'.store.bind Φ.ground.globals x v' } where
  printed := h.printed
  issued := hn
  holds := h.holds.bind x v
  holds' := h.holds'.bind x v'
  globals y hy := by
    rw [h.holds.global?_bind, h.holds'.global?_bind]
    split
    · exact .some hv
    · exact h.globals y hy
  behind y hy := by
    rw [h.holds.prelude?_bind, h.holds'.prelude?_bind]
    exact h.behind y hy
  bound y := by
    rw [h.holds.global?_bind, h.holds'.global?_bind]
    split
    · exact fun _ => rfl
    · exact h.bound y

/-- A name is taken in both worlds, or in neither, or it is hidden and taken in the first one. -/
theorem Stands.binds_cases (h : Φ.Stands w w') (x : String) :
    (w.store.binds Φ.ground.globals x = true ∧ w'.store.binds Φ.ground.globals x = true) ∨
      (w.store.binds Φ.ground.globals x = true ∧ ¬ Φ.visible x) ∨
      (w.store.binds Φ.ground.globals x = false ∧ w'.store.binds Φ.ground.globals x = false) := by
  rw [Store.binds_eq_isSome_own?, Store.binds_eq_isSome_own?]
  have hbound := h.bound x
  have hglobals := h.globals x
  unfold Ground.global? at hbound hglobals
  by_cases hx : Φ.visible x
  · rw [Value.Related.isSome_eq (hglobals hx)]
    cases (w'.store.own? Φ.ground.globals x).isSome <;> simp
  · cases hw : (w.store.own? Φ.ground.globals x).isSome with
    | true => exact .inr (.inl ⟨rfl, hx⟩)
    | false =>
      rw [hw] at hbound
      exact .inr (.inr ⟨rfl, Bool.eq_false_iff.mpr fun hw' => Bool.noConfusion (hbound hw')⟩)

theorem declare_agrees (hv : Φ.values v v') (h : Φ.Stands w w') :
    Φ.coupling.Agrees Eq (Run.declare Φ.ground.globals x v) (Run.declare Φ.ground.globals x v')
      w w' := by
  unfold Coupling.Agrees
  rw [Run.declare_apply, Run.declare_apply]
  obtain ⟨hw, hw'⟩ | ⟨hw, hx⟩ | ⟨hw, hw'⟩ := h.binds_cases x
  · rw [hw, hw', if_pos rfl, if_pos rfl]
    exact .error (Φ.comparison.ordinary rfl) h trivial
  · rw [hw, if_pos rfl]
    exact .excused (Φ.excused_hidden _ hx)
  · rw [hw, hw', if_neg Bool.false_ne_true, if_neg Bool.false_ne_true]
    exact .ok rfl (h.bind hv h.issued) trivial

theorem declareFunction_agrees {ps ps' : List String} {body body' : Node}
    (hclosures : ∀ id, Φ.closures
      { id, parameters := ps, body, frame := some Φ.ground.globals }
      { id, parameters := ps', body := body', frame := some Φ.ground.globals })
    (h : Φ.Stands w w') :
    Φ.coupling.Agrees (fun _ _ => True) (Run.declareFunction Φ.ground.globals x ps body)
      (Run.declareFunction Φ.ground.globals x ps' body') w w' := by
  unfold Coupling.Agrees
  rw [Run.declareFunction_apply, Run.declareFunction_apply]
  obtain ⟨hw, hw'⟩ | ⟨hw, hx⟩ | ⟨hw, hw'⟩ := h.binds_cases x
  · rw [hw, hw', if_pos rfl, if_pos rfl]
    exact .error (Φ.comparison.ordinary rfl) h trivial
  · rw [hw, if_pos rfl]
    exact .excused (Φ.excused_hidden _ hx)
  · rw [hw, hw', if_neg Bool.false_ne_true, if_neg Bool.false_ne_true, ← h.issued]
    exact .ok trivial (h.bind (.closure (hclosures w.issued)) rfl) trivial

/-- Declarations agree together with the records that they note. -/
theorem declare_noted_agrees {r r' : Record} (hv : Φ.values v v') (h : Φ.Stands w w') :
    Φ.coupling.Agrees Eq (do Run.declare Φ.ground.globals x v; Run.note r)
      (do Run.declare Φ.ground.globals x v'; Run.note r') w w' :=
  .bind (declare_agrees hv h) fun _ _ _ _ _ hu _ => note_agrees r r' hu

theorem declareFunction_noted_agrees {ps ps' : List String} {body body' : Node} {r r' : Record}
    (hclosures : ∀ id, Φ.closures
      { id, parameters := ps, body, frame := some Φ.ground.globals }
      { id, parameters := ps', body := body', frame := some Φ.ground.globals })
    (h : Φ.Stands w w') :
    Φ.coupling.Agrees Eq
      (do let _ ← Run.declareFunction Φ.ground.globals x ps body; Run.note r)
      (do let _ ← Run.declareFunction Φ.ground.globals x ps' body'; Run.note r') w w' :=
  .bind (declareFunction_agrees hclosures h) fun _ _ _ _ _ hu _ => note_agrees r r' hu

/-! ### Assigning and printing -/

/-- Both worlds may give a name another value where the globals bind it. -/
theorem Stands.update_globals (h : Φ.Stands w w') (hv : Φ.values v v') :
    Φ.Stands { w with store := w.store.update Φ.ground.globals x v }
      { w' with store := w'.store.update Φ.ground.globals x v' } where
  printed := h.printed
  issued := h.issued
  holds := h.holds.update _ x v
  holds' := h.holds'.update _ x v'
  globals y hy := by
    rw [Ground.global?_update_globals, Ground.global?_update_globals]
    exact Value.Related.updated_rel (h.globals y hy) hv
  behind y hy := by
    rw [Ground.prelude?_update_globals, Ground.prelude?_update_globals]
    exact h.behind y hy
  bound y := by
    have hbound := h.bound y
    rw [Ground.global?_update_globals, Ground.global?_update_globals]
    split
    · simpa using hbound
    · exact hbound

/-- Both worlds may give a name another value where the prelude binds it. -/
theorem Stands.update_behind (h : Φ.Stands w w') (hv : Φ.values v v') {b : FrameId}
    (hb : Φ.ground.behind = some b) :
    Φ.Stands { w with store := w.store.update b x v }
      { w' with store := w'.store.update b x v' } where
  printed := h.printed
  issued := h.issued
  holds := h.holds.update _ x v
  holds' := h.holds'.update _ x v'
  globals y hy := by
    rw [Ground.global?_update_behind _ hb, Ground.global?_update_behind _ hb]
    exact h.globals y hy
  behind y hy := by
    rw [Ground.prelude?_update_behind _ hb, Ground.prelude?_update_behind _ hb]
    exact Value.Related.updated_rel (h.behind y hy) hv
  bound y := by
    rw [Ground.global?_update_behind _ hb, Ground.global?_update_behind _ hb]
    exact h.bound y

theorem assign_agrees (hx : Φ.visible x) (hv : Φ.values v v') (h : Φ.Stands w w') :
    Φ.coupling.Agrees Eq (Run.assign Φ.ground.globals x v) (Run.assign Φ.ground.globals x v')
      w w' := by
  unfold Coupling.Agrees
  rw [Run.assign_apply, Run.assign_apply, h.holds.resolve?_eq, h.holds'.resolve?_eq,
    Value.Related.isSome_eq (h.globals x hx), Value.Related.isSome_eq (h.behind x hx)]
  cases (Φ.ground.global? w'.store x).isSome with
  | true => exact .ok rfl (h.update_globals hv) trivial
  | false =>
    cases (Φ.ground.prelude? w'.store x).isSome with
    | false => exact .error (Φ.comparison.ordinary rfl) h trivial
    | true =>
      cases hb : Φ.ground.behind with
      | none => exact .error (Φ.comparison.ordinary rfl) h trivial
      | some b => exact .ok rfl (h.update_behind hv hb) trivial

theorem print_agrees (line : String) (h : Φ.Stands w w') :
    Φ.coupling.Agrees Eq (do Run.print (← Run.options Φ.ground.globals).sink line)
      (do Run.print (← Run.options Φ.ground.globals).sink line) w w' := by
  have hsink :
      (w.store.options Φ.ground.globals).sink = (w'.store.options Φ.ground.globals).sink := by
    rw [Ground.Within.globals.options_eq h.holds, Ground.Within.globals.options_eq h.holds',
      Φ.sink_eq]
  unfold Coupling.Agrees
  rw [Run.bind_apply, Run.bind_apply, Run.options_apply, Run.options_apply]
  simp only [Run.print_apply, hsink, h.printed]
  exact .ok rfl ⟨rfl, h.issued, h.holds, h.holds', h.globals, h.behind, h.bound⟩ trivial

/-! ### Fresh grounds -/

/-- A fresh ground is a footing. -/
theorem stands_of_isLaid {u : World} (hmathematics : Φ.left.mathematics = Φ.right.mathematics)
    (hw : Φ.ground.IsLaid Φ.left u w) (hw' : Φ.ground.IsLaid Φ.right u w') : Φ.Stands w w' where
  printed := hw.printed.trans hw'.printed.symm
  issued := hw.issued.trans hw'.issued.symm
  holds := hw.holds
  holds' := hw'.holds
  globals x _ := by
    rw [hw.global?_eq, hw'.global?_eq]
    exact .none
  behind x _ := by
    rw [hw.prelude?_eq, hw'.prelude?_eq, Options.prelude?, Options.prelude?, hmathematics]
    exact Φ.right.prelude?_related _ x
  bound x hx := by
    rw [hw'.global?_eq] at hx
    cases hx

end Footing
end Bella
