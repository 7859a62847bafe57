import Bella.Proofs.Simulation.Mirror
import Bella.Proofs.Simulation.Statement
import Bella.Proofs.Tower

/-!
# Positions do not influence a run

Trees and tokens may carry positions, and a run looks at them in one place only: an error that has no
location takes the position of the node that it leaves. So if positions are added to a program, taken
away or changed, the program takes the same steps. Its closures have other positions in their bodies,
and its errors may have other locations. This holds of every tree, whether it is a program or not.

Near the end of the levels one thing more may differ. A tree that has no position is given one when
it is first looked at, and this takes levels. So an error at such a tree may give way to another
one, which says that the nesting is too deep.

## Main definitions

* `Bella.Halt.SameMessage`: halts that differ in the locations of errors alone.
* `Bella.Halt.SameUnlessCut`: halts with one message, unless a run is nested too deeply.
* `Bella.repositioning`: the simulation of a program by the program with other positions.

## Main results

* `Bella.interpret_repositioned`: programs that differ in positions run alike.
-/

namespace Bella

/-! ### Halts with one message -/

/-- Halts that differ in the locations of errors alone: errors have the same kind, and their messages
are the same up to the location at the end. -/
inductive Halt.SameMessage : Halt → Halt → Prop
  | error {e e' : Error} (hkind : e.kind = e'.kind)
      (hmessage : e.cause.message = e'.cause.message) : SameMessage (.error e) (.error e')
  | defect (d : Defect) : SameMessage (.defect d) (.defect d)
  | overflow : SameMessage .overflow .overflow
  | unfinished : SameMessage .unfinished .unfinished

namespace Halt.SameMessage

variable {h h' : Halt}

theorem refl (h : Halt) : h.SameMessage h := by
  cases h with
  | error e => exact .error rfl rfl
  | defect d => exact .defect d
  | overflow => exact .overflow
  | unfinished => exact .unfinished

theorem locate (hh : h.SameMessage h') (p p' : Position) :
    (h.locate p).SameMessage (h'.locate p') := by
  cases hh with
  | error hkind hmessage => exact .error hkind hmessage
  | defect d => exact .defect d
  | overflow => exact .overflow
  | unfinished => exact .unfinished

theorem leaveProgram (hh : h.SameMessage h') : h.leaveProgram.SameMessage h'.leaveProgram := by
  cases hh with
  | error hkind hmessage => exact .error hkind hmessage
  | defect d => exact .defect d
  | overflow => exact .refl _
  | unfinished => exact .unfinished

end Halt.SameMessage

/-- Halts with one message, unless the one run or the other is nested too deeply. -/
inductive Halt.SameUnlessCut (h h' : Halt) : Prop
  | same (hh : h.SameMessage h')
  | left (hh : h.IsTooDeep)
  | right (hh : h'.IsTooDeep)

namespace Halt.SameUnlessCut

variable {h h' : Halt}

theorem refl (h : Halt) : h.SameUnlessCut h := .same (.refl h)

theorem locate (hh : h.SameUnlessCut h') (p p' : Position) :
    (h.locate p).SameUnlessCut (h'.locate p') := by
  cases hh with
  | same hh => exact .same (hh.locate p p')
  | left hh => exact .left (hh.locate p)
  | right hh => exact .right (hh.locate p')

theorem leaveProgram (hh : h.SameUnlessCut h') : h.leaveProgram.SameUnlessCut h'.leaveProgram := by
  cases hh with
  | same hh => exact .same hh.leaveProgram
  | left hh => exact .left hh.leaveProgram
  | right hh => exact .right hh.leaveProgram

/-- Messages do not show the positions of the nodes they show. -/
theorem of_similar {c c' : Cause} (hc : c.Similar Node.Repositioned c') :
    SameUnlessCut (.error { cause := c }) (.error { cause := c' }) :=
  .same (.error hc.kind_eq (hc.message_eq Node.isSimilarity_repositioned))

end Halt.SameUnlessCut

theorem Halt.isComparison_sameUnlessCut : Halt.IsComparison Halt.SameUnlessCut where
  ordinary _ := .refl _
  overflow := .refl _
  unfinished := .refl _

/-! ### The simulation -/

/-- A run of a program beside one of the program with other positions. -/
def repositioningSetting : Setting where
  toCoupling := mirroring Node.Repositioned Halt.isComparison_sameUnlessCut
  Context := Unit
  closures := Closure.Mirrors Node.Repositioned
  nodes _ := Node.Repositioned
  names _ := Eq
  scope _ f f' _ _ := f = f'

/-- The simulation of a program by the program with other positions. -/
def repositioning : ProgramSimulation where
  toSetting := repositioningSetting
  shape hn :=
    .of_similar Node.isSimilarity_repositioned (fun _ _ => .of_similar) (fun _ => rfl) hn
      (fun _ _ _ he => he) (fun _ d => .refl (.defect d))
      (.inr fun _ => ⟨.left trivial, .right trivial⟩)
  closures_id hk := hk.id
  halts_locate _ hh := hh.locate _ _
  excused_locate _ := nofun
  excused_overflow := nofun
  halts_notCallable := by
    rintro _ x _ kind rfl
    exact .refl _
  scope_grows hf _ := hf
  lookup := by
    rintro _ x _ f _ w w' rfl rfl hworlds
    exact Mirroring.lookup_agrees hworlds f x
  call := by
    rintro eval eval' _ x _ k k' vs vs' f _ w w' heval rfl hk hvs rfl hworlds
    exact Mirroring.callClosure_agrees hworlds hk hvs x f fun hv => heval (c := ()) hk.body rfl hv
  outermost := ()
  top f f' := f = f'
  statements := Node.Repositioned
  targets _ := True
  functions ps body ps' body' := ps = ps' ∧ body.Repositioned body'
  changes _ _ _ _ := True
  changes_refl _ _ := trivial
  changes_trans _ _ := trivial
  changes_of_grows _ := trivial
  scope_top hf _ := hf
  statement_shape hn :=
    .of_similar Node.isSimilarity_repositioned (fun _ _ => .of_similar) (fun _ => trivial) hn
      (fun _ _ _ he => he) (fun _ d => .refl (.defect d)) (fun _ _ _ hs => hs)
      fun _ _ _ _ hbody => ⟨rfl, hbody⟩
  halts_locate_statement _ hh := hh.locate _ _
  halts_leaveProgram hh := hh.leaveProgram
  excused_leaveProgram := nofun
  start := by
    rintro f _ w w' rfl hworlds
    refine .bind (Mirroring.options_agrees hworlds f) fun o _ v v' ho hv _ => ?_
    subst ho
    exact Mirroring.note_agrees hv _
  finish hworlds := Mirroring.note_agrees hworlds _
  declare := by
    rintro x v v' f _ w w' hv rfl hworlds
    exact .bind (Mirroring.declare_agrees hworlds f x hv) fun _ _ _ _ _ hu _ =>
      Mirroring.note_agrees hu _
  declareFunction := by
    rintro x ps body _ body' f _ w w' ⟨rfl, hbody⟩ rfl hworlds
    exact .bind (Mirroring.declareFunction_agrees hworlds f x ps hbody) fun _ _ _ _ _ hu _ =>
      Mirroring.note_agrees hu _
  assign := by
    rintro x v v' f _ w w' - hv rfl hworlds
    exact Mirroring.assign_agrees hworlds f x hv
  print := by
    rintro line f _ w w' rfl hworlds
    refine .bind (Mirroring.options_agrees hworlds f) fun o _ v v' ho hv _ => ?_
    subst ho
    exact Mirroring.print_agrees hv _ line

/-! ### Programs -/

/-- Trees that differ in positions run alike in one frame, whether they are programs or not. -/
theorem interpretIn_agrees_of_repositioned (passes : Nat) {program program' : Node}
    (hprogram : program.Repositioned program') (f : FrameId) {w w' : World}
    (hworlds : w.Mirrors Node.Repositioned w') :
    (mirroring Node.Repositioned Halt.isComparison_sameUnlessCut).Agrees Eq
      (interpretIn passes program f) (interpretIn passes program' f) w w' := by
  have hlabel_eq := Node.isSimilarity_repositioned.label?_eq hprogram
  by_cases hlabel : program'.label? = some StatementForm.program.label
  · exact repositioning.interpretIn_agrees passes (repositioning.statement_shape hprogram)
      (fun _ _ hh => hh.locate _ _) (hlabel_eq.trans hlabel) hlabel rfl hworlds
  · rw [interpretIn_of_label_ne f (hlabel_eq ▸ hlabel), interpretIn_of_label_ne f hlabel]
    exact .throw (.of_similar (.notProgram hprogram)) hworlds

/-- A program that prints a line and then calls a function on a value that its body, which stands at
the given position, does not take. -/
def misplacedCall (p : Position) : Node :=
  .program (.block
    [.function (.name "f") [.name "x"]
      (.tree ExpressionForm.unary.label [.operator "-", .name "x"] { position := p }),
     .print (.boolean true),
     .print (.call (.name "f") [.boolean true])])

/-- A program with a tree whose label is unknown at the bottom of a tower. -/
def deepUnknown (m : Mark) : Node :=
  .program (.block [.block [.block
    [.declaration (.name "y") ((Node.tree "foo" [] m).inArrays 1995)]]])

private theorem deepUnknown_repositioned (m m' : Mark) :
    (deepUnknown m).Repositioned (deepUnknown m') := by
  have htower (k : Nat) : ((Node.tree "foo" [] m).inArrays k).bare =
      ((Node.tree "foo" [] m').inArrays k).bare := by
    induction k with
    | zero => rfl
    | succ k ih => simp only [Node.inArrays, Node.array, Node.ofLabel, Node.bare, Node.bareAll, ih]
  simp only [Node.Repositioned, deepUnknown, Node.program, Node.block, Node.declaration,
    Node.ofLabel, Node.bare, Node.bareAll, htower]

/-- The program halts as the tree does in the levels that are left for it. -/
private theorem interpret_deepUnknown_of_error {m : Mark} {k : Halt}
    (h : ∀ r, (evalLogged 0 6 (.tree "foo" [] m) 0).outcome ((freshWorld {}).noted r) = .error k) :
    (interpret 1 (deepUnknown m) none (some {})).outcome {} = .error k.leaveProgram := by
  have hprepare : prepareFrame none (some {}) {} = .ok 0 (freshWorld {}) := rfl
  have houtermost : outermostLevels = 9986 + 4 := rfl
  have hlevels : 9984 = 5 + 5 * 1995 + 4 := rfl
  have htower (w : World) (hw : (evalLogged 0 6 (.tree "foo" [] m) 0).outcome w = .error k) :
      (execAll (execLogged 0 1 9984) 0
        [.declaration (.name "y") ((Node.tree "foo" [] m).inArrays 1995)]).outcome w = .error k :=
    execAll_tower_of_error hlevels (by decide) "y" [] hw
  rw [← interpretLogged_zero, deepUnknown, outcome_interpretLogged hprepare, houtermost,
    execAll_block, execAll_block, htower _ (h _)]
  rfl

end Bella
