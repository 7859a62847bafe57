import Bella.Proofs.Simulation.Footing

/-!
# Programs that keep parameters local

Under flat scoping a call binds its parameters among the globals, where they collide with other
names and stay after the call; under lexical scoping it binds them in a frame of its own. A program
that uses the names of parameters in the bodies of their functions only cannot tell the two apart,
as long as no parameter collides: the lines that it prints and the way in which it ends are the
same.

The two runs build different stores. In the flat run, more and more parameters are bound among the
globals, and their values are those of the first call; so they are hidden, and the values of all
other names correspond. While a body is evaluated, its own parameters have the values of the call in
both runs, since a call that would find one of them bound collides.

## Main definitions

* `Bella.Node.parameterNames`, `Bella.Node.freeNames`: the names of parameters, and the names that
  are used outside the functions whose parameters they are.
* `Bella.localityProgram`: the simulation of the flat run by the lexical one.

## Main results

* `Bella.Node.IsStatement.same_of_local`: a statement that keeps parameters local.
* `Bella.interpret_flat_agrees_with_lexical`: the two policies agree.
-/

namespace Bella

/-! ### Names of parameters and names in use -/

namespace Node

mutual

/-- The names in the lists of parameters of a tree. -/
def parameterNames : Node → List String
  | .tree label children _ =>
    if label = parametersLabel then namesAll children else parameterNamesAll children
  | _ => []

/-- The names in the lists of parameters of some trees. -/
def parameterNamesAll : List Node → List String
  | [] => []
  | n :: ns => parameterNames n ++ parameterNamesAll ns

end

mutual

/-- The names that a tree reads, calls or assigns to. The names that it declares are not among them,
nor are the parameters of a function for their use in its body. -/
def freeNames : Node → List String
  | .tree label children _ =>
    match StatementForm.ofLabel? label, children with
    | some .declaration, [_, init] => init.names
    | some .function, [_, parameters, body] => body.names.filter (· ∉ parameters.names)
    | some .program, _ | some .block, _ | some .loop, _ => freeNamesAll children
    | _, _ => namesAll children
  | n => n.names

/-- The names that some trees read, call or assign to. -/
def freeNamesAll : List Node → List String
  | [] => []
  | n :: ns => freeNames n ++ freeNamesAll ns

end

theorem mem_parameterNamesAll {ns : List Node} {x : String} :
    x ∈ parameterNamesAll ns ↔ ∃ n ∈ ns, x ∈ n.parameterNames := by
  induction ns with
  | nil => simp [parameterNamesAll]
  | cons n ns ih => simp [parameterNamesAll, ih]

theorem mem_freeNamesAll {ns : List Node} {x : String} :
    x ∈ freeNamesAll ns ↔ ∃ n ∈ ns, x ∈ n.freeNames := by
  induction ns with
  | nil => simp [freeNamesAll]
  | cons n ns ih => simp [freeNamesAll, ih]

/-- Expressions declare nothing, so all their names are in use. -/
theorem IsExpression.freeNames_eq {n : Node} (hn : n.IsExpression) : n.freeNames = n.names := by
  cases hn <;> rfl

end Node

/-! ### Trees that keep parameters local -/

/-- Inside a function with the parameters `enclosing`, these are the names of parameters that may be
used. -/
def LocalName (parameters enclosing : List String) (x x' : String) : Prop :=
  x = x' ∧ (x ∈ parameters → x ∈ enclosing)

/-- A function whose body uses no parameters but its own. -/
structure LocalFunction (parameters : List String) (ps : List String) (body : Node)
    (ps' : List String) (body' : Node) : Prop where
  parameters_eq : ps = ps'
  subset : ps ⊆ parameters
  body : Node.SameExpression (LocalName parameters ps) body body'

namespace Node

variable {parameters : List String} {n : Node}

/-- The statements that keep the given names of parameters local. -/
abbrev LocalStatement (parameters : List String) : Node → Node → Prop :=
  SameStatement (SameExpression (LocalName parameters [])) (· ∉ parameters)
    (LocalFunction parameters)

private theorem same_of_free (hn : n.IsExpression) (hfree : ∀ x ∈ n.names, x ∉ parameters) :
    SameExpression (LocalName parameters []) n n :=
  hn.same_self fun x hx => ⟨rfl, fun h => absurd h (hfree x hx)⟩

/-- A statement whose names in use are not names of parameters. -/
theorem IsStatement.same_of_local (hn : n.IsStatement) (hfree : ∀ x ∈ n.freeNames, x ∉ parameters)
    (hparameters : ∀ x ∈ n.parameterNames, x ∈ parameters) : LocalStatement parameters n n := by
  induction hn with
  | block m _ ih =>
    refine .block m (List.forall₂_same.mpr fun s hs => ih s hs (fun x hx => ?_) fun x hx => ?_)
    · exact hfree x (mem_freeNamesAll.mpr ⟨s, hs, hx⟩)
    · exact hparameters x (mem_parameterNamesAll.mpr ⟨s, hs, hx⟩)
  | declaration x p m he => exact .declaration x p m (same_of_free he hfree)
  | @function x p ps body m' m hbody =>
    refine .function x p m' m
      ⟨rfl, fun y hy => hparameters y ?_, hbody.same_self fun y hy => ⟨rfl, ?_⟩⟩
    · rw [← names_parameterList ps m'] at hy
      refine mem_parameterNamesAll.mpr ⟨parameterList ps m', by simp, hy⟩
    · intro hmem
      by_contra hps
      rw [← names_parameterList ps m'] at hps
      refine hfree y (List.mem_filter.mpr ⟨hy, ?_⟩) hmem
      simpa using hps
  | assignment x p m he =>
    refine .assignment p m (hfree x ?_) (same_of_free he fun y hy => hfree y ?_)
    · exact List.mem_append_left _ (by simp [names])
    · exact mem_namesAll.mpr ⟨_, by simp, hy⟩
  | print m he => exact .print m (same_of_free he fun y hy => hfree y (List.mem_append_left _ hy))
  | @loop t ss m' m ht hbody ih =>
    have hfree' (c : Node) (hc : c ∈ [t, .tree StatementForm.block.label ss m']) (x : String)
        (hx : x ∈ c.freeNames) : x ∉ parameters :=
      hfree x (mem_freeNamesAll.mpr ⟨c, hc, hx⟩)
    refine .loop m (same_of_free ht fun x hx => hfree' t (by simp) x ?_)
      (ih (fun x => ?_) fun x hx => ?_)
    · rwa [ht.freeNames_eq]
    · exact hfree' _ (by simp) x
    · exact hparameters x (mem_parameterNamesAll.mpr ⟨_, by simp, hx⟩)

/-- A program whose names in use are not names of its parameters. -/
theorem IsProgram.same_of_local {program : Node} (hprogram : program.IsProgram)
    (hfree : ∀ x ∈ program.freeNames, x ∉ program.parameterNames) :
    SameProgram (LocalStatement program.parameterNames) program program := by
  obtain ⟨m', m, hss⟩ := hprogram
  refine .block m' m (List.forall₂_same.mpr fun s hs => (hss s hs).same_of_local ?_ ?_)
  · intro x hx
    exact hfree x (mem_freeNamesAll.mpr ⟨_, List.mem_cons_self, mem_freeNamesAll.mpr ⟨s, hs, hx⟩⟩)
  · intro x hx
    exact mem_parameterNamesAll.mpr ⟨_, List.mem_cons_self, mem_parameterNamesAll.mpr ⟨s, hs, hx⟩⟩

end Node

/-! ### The simulation -/

/-- The closures that correspond to one another. -/
structure LocalClosure (γ : Ground) (parameters : List String) (c c' : Closure) : Prop where
  id : c.id = c'.id
  frame : c.frame = some γ.globals
  frame' : c'.frame = some γ.globals
  function : LocalFunction parameters c.parameters c.body c'.parameters c'.body

/-- A parameter that collides. -/
def Halt.IsCollision (parameters : List String) (h : Halt) : Prop :=
  ∃ e x what, h = .error e ∧ e.cause = .alreadyDeclared x what ∧ x ∈ parameters

theorem Halt.IsCollision.locate {parameters : List String} {h : Halt}
    (hh : h.IsCollision parameters)
    (p : Position) : (h.locate p).IsCollision parameters := by
  obtain ⟨e, x, what, rfl, hcause, hx⟩ := hh
  exact ⟨e.locate p, x, what, rfl, hcause, hx⟩

theorem Halt.IsCollision.leaveProgram {parameters : List String} {h : Halt}
    (hh : h.IsCollision parameters) : h.leaveProgram.IsCollision parameters := by
  obtain ⟨e, x, what, rfl, hcause, hx⟩ := hh
  exact ⟨e, x, what, rfl, hcause, hx⟩

/-- What the flat run and the lexical run of a program have in common. -/
def localityFooting (γ : Ground) (o : Options) (parameters : List String) : Footing where
  ground := γ
  left := { o with scoping := .flat }
  right := { o with scoping := .lexical }
  closures := LocalClosure γ parameters
  visible x := x ∉ parameters
  halts := Eq
  excused := Halt.IsCollision parameters
  sink_eq := rfl
  comparison := Halt.isComparison_eq
  excused_hidden what h := ⟨_, _, what, rfl, rfl, not_not.mp h⟩

/-- The frame of a call in the lexical run binds parameters alone, and the parameters in `enclosing`
have the values in it that they have among the globals of the flat run. -/
structure LocalScope (γ : Ground) (o : Options) (parameters enclosing : List String)
    (f f' : FrameId) (w w' : World) (locals' : String → Option Value) : Prop where
  globals : f = γ.globals
  within' : γ.Within { o with scoping := .lexical } w'.store f' locals'
  hidden : ∀ x, x ∉ parameters → locals' x = none
  values : ∀ x ∈ enclosing, ∃ v v', γ.global? w.store x = some v ∧ locals' x = some v' ∧
    v.Related (LocalClosure γ parameters) v'

/-- The flat run of a program beside the lexical one. What is bound among the globals of the flat
run keeps its value while an expression is evaluated. -/
def localitySetting (γ : Ground) (o : Options) (parameters : List String) : Setting where
  worlds := (localityFooting γ o parameters).Stands
  grows w w' v v' :=
    (∀ x a, γ.global? w.store x = some a → γ.global? v.store x = some a) ∧ w'.Extends v'
  halts := Eq
  excused := Halt.IsCollision parameters
  grows_refl _ w' := ⟨fun _ _ => id, .refl w'⟩
  grows_trans h h' := ⟨fun x a ha => h'.1 x a (h.1 x a ha), h.2.trans h'.2⟩
  comparison := Halt.isComparison_eq
  Context := List String
  closures := LocalClosure γ parameters
  nodes enclosing := Node.SameExpression (LocalName parameters enclosing)
  names := LocalName parameters
  scope enclosing f f' w w' := ∃ locals', LocalScope γ o parameters enclosing f f' w w' locals'

section Laws

variable {γ : Ground} {o : Options} {parameters enclosing : List String} {f f' : FrameId}
  {w w' : World}

private theorem locality_lookup {x x' : String} (hx : LocalName parameters enclosing x x')
    (hscope : (localitySetting γ o parameters).scope enclosing f f' w w')
    (hworlds : (localityFooting γ o parameters).Stands w w') :
    (localitySetting γ o parameters).Agrees (localitySetting γ o parameters).values (Run.lookup f x)
      (Run.lookup f' x') w w' := by
  obtain ⟨rfl, hlocal⟩ := hx
  obtain ⟨locals', hscope⟩ := hscope
  obtain rfl := hscope.globals
  have hholds : γ.Holds { o with scoping := .flat } w.store := hworlds.holds
  have hrel : Option.Rel (localitySetting γ o parameters).values (w.store.lookup? γ.globals x)
      (w'.store.lookup? f' x) := by
    rw [hholds.lookup?_eq, hscope.within'.lookup?_eq hworlds.holds']
    by_cases hx : x ∈ parameters
    · obtain ⟨v, v', hv, hv', h⟩ := hscope.values x (hlocal hx)
      rw [hv, hv', Option.some_or, Option.some_or]
      exact .some h
    · rw [hscope.hidden x hx, Option.none_or]
      exact hworlds.visible_rel hx
  unfold Coupling.Agrees
  rw [Run.lookup_apply, Run.lookup_apply]
  generalize w.store.lookup? γ.globals x = r, w'.store.lookup? f' x = r' at hrel ⊢
  cases hrel with
  | some h => exact .ok h hworlds ((localitySetting γ o parameters).grows_refl w w')
  | none => exact .error rfl hworlds ((localitySetting γ o parameters).grows_refl w w')

section Call

variable {D : Frame} {ps : List String} {vs vs' : List Value} {v' : World}
  (hholds : γ.Holds { o with scoping := .flat } w.store) (hD : w.store.get? γ.globals = some D)
  (hnone : (D.bindAll (ps.zip vs)).2 = none)
include hholds hD hnone

/-- After a flat call, the globals bind its parameters and what they bound before. -/
private theorem global?_of_call (x : String) :
    γ.global? (w.replace γ.globals (D.bindAll (ps.zip vs)).1).store x =
      ((ps.zip vs).lookup x).or (γ.global? w.store x) := by
  rw [World.replace, hholds.global?_replace, Frame.get?_bindAll hnone, Ground.global?,
    Store.own?_of_get? hD]

private theorem global?_kept_of_call {x : String} {a : Value} (ha : γ.global? w.store x = some a) :
    γ.global? (w.replace γ.globals (D.bindAll (ps.zip vs)).1).store x = some a := by
  have hbinds : D.binds x = true := by
    rw [Frame.binds_eq_isSome_get?, ← Store.own?_of_get? hD]
    exact Option.isSome_of_eq_some ha
  rw [global?_of_call hholds hD hnone, Frame.lookup_eq_none_of_bindAll hnone hbinds,
    Option.none_or, ha]

/-- The parameters of a flat call are hidden, so its world still stands beside the lexical one. -/
private theorem stands_of_call (hps : ps ⊆ parameters)
    (hworlds : (localityFooting γ o parameters).Stands w w') (hv' : w'.Extends v') (r : Record) :
    (localityFooting γ o parameters).Stands
      ((w.replace γ.globals (D.bindAll (ps.zip vs)).1).noted r) v' where
  printed := hworlds.printed.trans hv'.printed.symm
  issued := hworlds.issued.trans hv'.issued.symm
  holds := by
    obtain ⟨F, hget, hparent, hoptions⟩ := hholds.globals
    obtain rfl : F = D := Option.some.inj (hget.symm.trans hD)
    obtain ⟨hparent', -, hoptions'⟩ := F.bindAll_shape (ps.zip vs)
    exact hholds.replace (hparent'.trans hparent) (hoptions'.trans hoptions)
  holds' := hworlds.holds'.kept hv'.frames
  globals x hx := by
    have hglobal := global?_of_call hholds hD hnone x
    rw [lookup_zip_eq_none fun h => hx (hps h), Option.none_or] at hglobal
    rw [hworlds.holds'.global?_kept hv'.frames]
    exact hglobal ▸ hworlds.globals x hx
  behind x hx := by
    rw [hworlds.holds'.prelude?_kept hv'.frames]
    exact (Ground.prelude?_replace w.store _ x) ▸ hworlds.behind x hx
  bound x hx := by
    rw [hworlds.holds'.global?_kept hv'.frames] at hx
    obtain ⟨a, ha⟩ := Option.isSome_iff_exists.mp (hworlds.bound x hx)
    exact Option.isSome_of_eq_some (global?_kept_of_call hholds hD hnone ha)

/-- In both runs the parameters of a call have the values of its arguments. -/
private theorem localScope_of_call (hps : ps ⊆ parameters) (hlength : vs.length = ps.length)
    (hvs : List.Forall₂ (Value.Related (LocalClosure γ parameters)) vs vs') (r : Record)
    (hwithin : γ.Within { o with scoping := .lexical } v'.store f' fun x => (ps.zip vs').lookup x) :
    LocalScope γ o parameters ps γ.globals f'
      ((w.replace γ.globals (D.bindAll (ps.zip vs)).1).noted r) v'
      fun x => (ps.zip vs').lookup x where
  globals := rfl
  within' := hwithin
  hidden x hx := lookup_zip_eq_none fun h => hx (hps h)
  values x hx := by
    have hrel := Value.Related.lookup_zip_self ps hvs x
    obtain ⟨a, ha⟩ := Option.isSome_iff_exists.mp (isSome_lookup_zip hlength hx)
    rw [ha] at hrel
    cases hb : (ps.zip vs').lookup x with
    | none =>
      rw [hb] at hrel
      cases hrel
    | some b =>
      rw [hb] at hrel
      cases hrel with
      | some h =>
        have hglobal := global?_of_call hholds hD hnone x
        rw [ha, Option.some_or] at hglobal
        exact ⟨a, b, hglobal, rfl, h⟩

end Call

private theorem locality_call {eval eval' : Evaluator}
    (heval : (localitySetting γ o parameters).Evaluates eval eval') (x : String) {k k' : Closure}
    (hk : LocalClosure γ parameters k k') {vs vs' : List Value}
    (hvs : List.Forall₂ (localitySetting γ o parameters).values vs vs')
    (hscope : (localitySetting γ o parameters).scope enclosing f f' w w')
    (hworlds : (localityFooting γ o parameters).Stands w w') :
    (localitySetting γ o parameters).Agrees (localitySetting γ o parameters).values
      (callClosure eval x k vs f) (callClosure eval' x k' vs' f') w w' := by
  obtain ⟨locals', hscope⟩ := hscope
  obtain rfl := hscope.globals
  have hholds : γ.Holds { o with scoping := .flat } w.store := hworlds.holds
  have hps := hk.function.subset
  have hparameters := hk.function.parameters_eq
  have hbody := hk.function.body
  by_cases hlength : vs.length = k.parameters.length
  · have hlength' : vs'.length = k'.parameters.length := by
      rw [← hparameters, ← hvs.length_eq, hlength]
    obtain ⟨D, hD, -⟩ := hholds.globals
    have hflat : (w.store.options γ.globals).scoping = .flat := by
      rw [Ground.Within.globals.options_eq hholds]
    have hhome : k.home w.store γ.globals = γ.globals := by simp [Closure.home, hk.frame]
    unfold Coupling.Agrees
    rw [callClosure_flat hlength hflat hhome hD]
    cases hnone : (D.bindAll (k.parameters.zip vs)).2 with
    | some y =>
      have hy := Frame.mem_of_bindAll hnone
      rw [List.map_fst_zip (Nat.le_of_eq hlength.symm)] at hy
      exact .excused ⟨_, y, .variable, rfl, rfl, hps hy⟩
    | none =>
      -- the flat call has met no collision, so no parameter is repeated in the lexical one
      have hrepeated := Frame.firstRepeated_of_bindAll hnone
      rw [List.map_fst_zip (Nat.le_of_eq hlength.symm), hparameters] at hrepeated
      obtain ⟨v', hv', hwithin, hcall⟩ :=
        hworlds.holds'.callClosure_apply hscope.within' rfl hk.frame' hlength' eval' x
      have hwithin := hwithin hrepeated
      rw [← hparameters] at hwithin
      rw [hcall, hrepeated]
      have hstands := stands_of_call hholds hD hnone hps hworlds hv' (.called x k.parameters .flat)
      have hlocal := localScope_of_call hholds hD hnone hps hlength hvs
        (.called x k.parameters .flat) hwithin
      refine (heval hbody ⟨_, hlocal⟩ hstands).trans ⟨fun y a ha => ?_, hv'⟩
      exact global?_kept_of_call hholds hD hnone ha
  · have hlength' : vs'.length ≠ k'.parameters.length := by rwa [← hparameters, ← hvs.length_eq]
    rw [callClosure_of_length_ne hlength, callClosure_of_length_ne hlength', ← hparameters,
      ← hvs.length_eq]
    exact .fail rfl hworlds

end Laws

/-- The expressions of the flat run beside those of the lexical one. -/
def localityExpressions (γ : Ground) (o : Options) (parameters : List String) : Simulation where
  toSetting := localitySetting γ o parameters
  shape h := h.shape fun _ => rfl
  closures_id h := h.id
  halts_locate := by
    rintro enclosing n n' h _ hn rfl
    rw [hn.position_eq]
    rfl
  excused_locate p h := h.locate p
  excused_overflow := by
    rintro x ⟨e, y, what, he, hcause, -⟩
    cases he
    cases hcause
  halts_notCallable := by
    rintro enclosing x _ kind ⟨rfl, -⟩
    rfl
  scope_grows := by
    rintro enclosing f f' w w' v v' ⟨locals', h⟩ ⟨hv, hv'⟩
    refine ⟨locals', h.globals, h.within'.kept hv'.frames, h.hidden, fun x hx => ?_⟩
    obtain ⟨a, a', ha, ha', hrel⟩ := h.values x hx
    exact ⟨a, a', hv x a ha, ha', hrel⟩
  lookup := locality_lookup
  call := by
    rintro eval eval' enclosing x _ k k' vs vs' f f' w w' heval ⟨rfl, -⟩ hk hvs hscope hworlds
    exact locality_call heval x hk hvs hscope hworlds

/-- The simulation of the flat run of a program by the lexical one. -/
def localityProgram (γ : Ground) (o : Options) (parameters : List String) : ProgramSimulation where
  toSimulation := localityExpressions γ o parameters
  outermost := []
  top f f' := f = γ.globals ∧ f' = γ.globals
  statements := Node.LocalStatement parameters
  targets x := x ∉ parameters
  functions := LocalFunction parameters
  changes _ _ _ _ := True
  changes_refl _ _ := trivial
  changes_trans _ _ := trivial
  changes_of_grows _ := trivial
  scope_top := by
    rintro f f' w w' ⟨rfl, rfl⟩ _
    exact ⟨_, rfl, .globals, fun _ _ => rfl, nofun⟩
  statement_shape h := h.shape
  halts_locate_statement := by
    rintro n n' h _ hn rfl
    rw [hn.position_eq]
    rfl
  halts_leaveProgram := by
    rintro h _ rfl
    rfl
  excused_leaveProgram h := h.leaveProgram
  start _ h := (localityFooting γ o parameters).note_agrees _ _ h
  finish h := (localityFooting γ o parameters).note_agrees _ _ h
  declare := by
    rintro x v v' f f' w w' hv ⟨rfl, rfl⟩ h
    exact (localityFooting γ o parameters).declare_noted_agrees hv h
  declareFunction := by
    rintro x ps body ps' body' f f' w w' hfunction ⟨rfl, rfl⟩ h
    exact (localityFooting γ o parameters).declareFunction_noted_agrees
      (fun _ => ⟨rfl, rfl, rfl, hfunction⟩) h
  assign := by
    rintro x v v' f f' w w' hx hv ⟨rfl, rfl⟩ h
    exact (localityFooting γ o parameters).assign_agrees hx hv h
  print := by
    rintro line f f' w w' ⟨rfl, rfl⟩ h
    exact (localityFooting γ o parameters).print_agrees line h

/-! ### The two policies -/

/-- **Flat and lexical scoping agree on programs that keep parameters local.** Suppose that no name
of a parameter is read, called or assigned to outside the bodies of the functions that have it as a
parameter. Unless the flat run ends with the collision of a parameter, the lexical run ends in the
same way, with the same error if there is one, and prints the same lines. -/
theorem interpret_flat_agrees_with_lexical {program : Node} (hprogram : program.IsProgram)
    (hlocal : ∀ x ∈ program.freeNames, x ∉ program.parameterNames) (o : Options) (w : World)
    (passes : Nat)
    (hcollision : ∀ e x what,
      (interpret passes program none (some { o with scoping := .flat })).outcome w =
        .error (.error e) → e.cause = .alreadyDeclared x what → x ∉ program.parameterNames) :
    (interpret passes program none (some { o with scoping := .lexical })).outcome w =
        (interpret passes program none (some { o with scoping := .flat })).outcome w ∧
      ((interpret passes program none (some { o with scoping := .lexical })).after w).printed =
        ((interpret passes program none (some { o with scoping := .flat })).after w).printed := by
  obtain ⟨v, hv, hrun⟩ := interpret_fresh passes program (some { o with scoping := .flat }) w
  obtain ⟨v', hv', hrun'⟩ := interpret_fresh passes program (some { o with scoping := .lexical }) w
  let S := localityProgram (Ground.fresh o w) o program.parameterNames
  have hstands : S.worlds v v' := Footing.stands_of_isLaid rfl hv hv'
  have hagrees :
      S.outer.Agrees Eq (interpretIn passes program _) (interpretIn passes program _) v v' :=
    S.program_agrees passes (hprogram.same_of_local hlocal) (fun _ _ _ => congrArg _) ⟨rfl, rfl⟩
      hstands
  rw [Run.outcome_congr hrun] at hcollision
  rw [Run.outcome_congr hrun, Run.outcome_congr hrun', Run.after_congr hrun, Run.after_congr hrun']
  obtain ⟨hworlds, hends⟩ := hagrees.ends fun k hk ⟨e, x, what, he, hcause, hx⟩ =>
    hcollision e x what (he ▸ hk) hcause hx
  refine ⟨?_, hworlds.printed.symm⟩
  obtain ⟨a, b, ha, hb, -⟩ | ⟨k, k', hk, hk', rfl⟩ := hends
  · exact hb.trans ha.symm
  · exact hk'.trans hk.symm

/-- A program whose function `g` hands its parameter on to the function `f`. -/
def relayProgram : Node :=
  .program (.block
    [.function (.name "f") [.name "x"] (.unary "!" (.name "x")),
      .function (.name "g") [.name "y"] (.call (.name "f") [.name "y"]),
      .print (.call (.name "g") [.boolean true])])

private theorem relayProgram_isProgram : relayProgram.IsProgram := by
  refine .block {} {} fun s hs => ?_
  simp only [List.mem_cons, List.not_mem_nil, or_false] at hs
  obtain rfl | rfl | rfl := hs
  · exact .function "f" {} [("x", {})] {} {} (.unary "!" {} {} (.name "x" {}))
  · refine .function "g" {} [("y", {})] {} {} (.call "f" {} {} {} fun e he => ?_)
    obtain rfl := List.mem_singleton.mp he
    exact .name "y" {}
  · refine .print {} (.call "g" {} {} {} fun e he => ?_)
    obtain rfl := List.mem_singleton.mp he
    exact .true {}

/-- The program keeps its parameters local, its flat run succeeds, and so does the lexical one. -/
theorem interpret_flat_agrees_with_lexical_of_relay :
    relayProgram.IsProgram ∧ (∀ x ∈ relayProgram.freeNames, x ∉ relayProgram.parameterNames) ∧
      (interpret 1 relayProgram none (some { scoping := .flat })).outcome {} = .ok () ∧
      (interpret 1 relayProgram none (some { scoping := .lexical })).outcome {} =
        (interpret 1 relayProgram none (some { scoping := .flat })).outcome {} ∧
      ((interpret 1 relayProgram none (some { scoping := .lexical })).after {}).printed =
        ((interpret 1 relayProgram none (some { scoping := .flat })).after {}).printed := by
  have hlocal : ∀ x ∈ relayProgram.freeNames, x ∉ relayProgram.parameterNames := by decide
  have hflat :
      (interpret 1 relayProgram none (some { scoping := .flat })).outcome {} = .ok () := rfl
  refine ⟨relayProgram_isProgram, hlocal, hflat, ?_⟩
  refine interpret_flat_agrees_with_lexical relayProgram_isProgram hlocal {} {} 1
    fun e x what h => ?_
  cases hflat.symm.trans h

end Bella
