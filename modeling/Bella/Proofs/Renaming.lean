import Bella.Proofs.Simulation.Footing

/-!
# Renaming a parameter

Under lexical scoping the parameters of a function are known to its body alone. So a parameter may
be renamed in the list of parameters and in the body, and nothing shows but in the texts of errors:
a program and its renamed version print the same lines and end alike. The new name must not occur in
the program, but the old one may occur anywhere else, as a global name, as a name of the prelude or
as a parameter of other functions.

## Main definitions

* `Bella.Node.RenamesParameter`: one parameter of one function is renamed.
* `Bella.Halt.SameKind`: halts that differ in texts and locations alone.
* `Bella.renamingProgram`: the simulation of a program by its renamed version.

## Main results

* `Bella.Node.IsStatement.same_of_renames`: statements of a program and of its renamed version.
* `Bella.interpret_renamed_parameter`: renaming a parameter does not show.
-/

namespace Bella

/-- The name `q` in the place of `p`. -/
def rename (p q x : String) : String := if x = p then q else x

/-- Other names stay apart from the new one. -/
theorem rename_injective {p q x y : String} (hx : x ≠ q) (hy : y ≠ q)
    (h : rename p q x = rename p q y) : x = y := by
  unfold rename at h
  split at h <;> split at h <;> simp_all

/-! ### Programs with a renamed parameter -/

/-- Two lists that differ in one place. -/
inductive ChangesOne {α : Type} (R : α → α → Prop) : List α → List α → Prop
  | head {a a' : α} (as : List α) (h : R a a') : ChangesOne R (a :: as) (a' :: as)
  | tail {as as' : List α} (a : α) (h : ChangesOne R as as') : ChangesOne R (a :: as) (a :: as')

theorem ChangesOne.exists_mem {α : Type} {R : α → α → Prop} {as as' : List α}
    (h : ChangesOne R as as') : ∃ a ∈ as, ∃ a', R a a' := by
  induction h with
  | head as h => exact ⟨_, List.mem_cons_self, _, h⟩
  | tail a _ ih =>
    obtain ⟨b, hb, h⟩ := ih
    exact ⟨b, List.mem_cons_of_mem a hb, h⟩

theorem ChangesOne.forall₂ {α : Type} {R S : α → α → Prop} {as as' : List α}
    (h : ChangesOne R as as') (hsame : ∀ a ∈ as, S a a)
    (hchanged : ∀ a ∈ as, ∀ a', R a a' → S a a') :
    List.Forall₂ S as as' := by
  induction h with
  | head as h =>
    refine .cons (hchanged _ List.mem_cons_self _ h) (List.forall₂_same.mpr fun a ha => ?_)
    exact hsame a (List.mem_cons_of_mem _ ha)
  | tail a _ ih =>
    exact .cons (hsame a List.mem_cons_self) (ih (fun b hb => hsame b (List.mem_cons_of_mem a hb))
      fun b hb => hchanged b (List.mem_cons_of_mem a hb))

namespace Node

/-- The second tree is the first one with the parameter `p` of one function renamed to `q`, in the
list of parameters and in the body of the function. -/
inductive RenamesParameter (p q : String) : Node → Node → Prop
  | here {name parameters body : Node} (m : Mark) (hp : p ∈ parameters.names) :
      RenamesParameter p q (.tree StatementForm.function.label [name, parameters, body] m)
        (.tree StatementForm.function.label
          [name, parameters.mapNames (rename p q), body.mapNames (rename p q)] m)
  | inside {children children' : List Node} (label : String) (m : Mark)
      (h : ChangesOne (RenamesParameter p q) children children') :
      RenamesParameter p q (.tree label children m) (.tree label children' m)

variable {p q : String} {n n' : Node}

/-- In a tree other than the declaration of a function, a parameter is renamed further inside. -/
theorem RenamesParameter.changesOne {label : String} {children : List Node} {m : Mark}
    (h : RenamesParameter p q (.tree label children m) n')
    (hlabel : label ≠ StatementForm.function.label) :
    ∃ children', n' = .tree label children' m ∧
      ChangesOne (RenamesParameter p q) children children' := by
  generalize hn : Node.tree label children m = n at h
  cases h with
  | here m' _ =>
    cases hn
    exact absurd rfl hlabel
  | inside label' m' hchildren =>
    cases hn
    exact ⟨_, rfl, hchildren⟩

theorem not_renamesParameter_token {type text : String} {position : Position} :
    ¬ RenamesParameter p q (.token type text position) n' := nofun

/-- Nothing is renamed in a tree that is not a declaration if nothing is in its children. -/
theorem not_renamesParameter_tree {label : String} {children : List Node} {m : Mark}
    (hlabel : label ≠ StatementForm.function.label)
    (hchildren : ∀ c ∈ children, ∀ c', ¬ RenamesParameter p q c c') :
    ¬ RenamesParameter p q (.tree label children m) n' := by
  intro h
  obtain ⟨children', -, hone⟩ := h.changesOne hlabel
  obtain ⟨c, hc, c', h⟩ := hone.exists_mem
  exact hchildren c hc c' h

/-- Expressions declare no functions. -/
theorem IsExpression.not_renamesParameter (hn : n.IsExpression) : ¬ RenamesParameter p q n n' := by
  induction hn generalizing n' with
  | numeral | true | false | name => exact not_renamesParameter_token
  | unary symbol _ m _ ih =>
    refine not_renamesParameter_tree (by decide) ?_
    simp [not_renamesParameter_token, ih]
  | binary symbol _ m _ _ ihl ihr =>
    refine not_renamesParameter_tree (by decide) ?_
    simp [not_renamesParameter_token, ihl, ihr]
  | conditional m _ _ _ iht iha ihb =>
    refine not_renamesParameter_tree (by decide) ?_
    simp [iht, iha, ihb]
  | array m _ ih => exact not_renamesParameter_tree (by decide) fun e he _ => ih e he
  | subscript m _ _ iht ihi =>
    refine not_renamesParameter_tree (by decide) ?_
    simp [iht, ihi]
  | @call x _ es m' m _ ih =>
    have harguments {c' : Node} : ¬ RenamesParameter p q (.tree argumentsLabel es m') c' :=
      not_renamesParameter_tree (by decide) fun e he _ => ih e he
    refine not_renamesParameter_tree (by decide) ?_
    simp [not_renamesParameter_token, harguments]

theorem not_renamesParameter_parameterList {ps : List (String × Position)} {m : Mark} :
    ¬ RenamesParameter p q (parameterList ps m) n' := by
  refine not_renamesParameter_tree (by decide) fun c hc c' => ?_
  obtain ⟨r, -, rfl⟩ := List.mem_map.mp hc
  exact not_renamesParameter_token

theorem mapNames_parameterList (g : String → String) (ps : List (String × Position)) (m : Mark) :
    (parameterList ps m).mapNames g = parameterList (ps.map fun r => (g r.1, r.2)) m := by
  simp [parameterList, mapNames, mapNamesAll_eq_map, Function.comp_def]

end Node

/-! ### Trees that correspond -/

/-- What becomes of a name inside the function whose parameter is renamed, and elsewhere. -/
def renameIn (p q : String) (renamed : Bool) (x : String) : String :=
  if renamed then rename p q x else x

theorem renameIn_injective {p q x y : String} (renamed : Bool) (hx : x ≠ q) (hy : y ≠ q)
    (h : renameIn p q renamed x = renameIn p q renamed y) : x = y := by
  cases renamed with
  | false => exact h
  | true => exact rename_injective hx hy h

/-- The names that correspond to one another. -/
def RenamedName (p q : String) (renamed : Bool) (x x' : String) : Prop :=
  x ≠ q ∧ x' = renameIn p q renamed x

/-- The functions that correspond to one another. -/
def RenamedFunction (p q : String) (ps : List String) (body : Node) (ps' : List String)
    (body' : Node) : Prop :=
  ∃ renamed, ps' = ps.map (renameIn p q renamed) ∧ q ∉ ps ∧ (renamed = true → p ∈ ps) ∧
    Node.SameExpression (RenamedName p q renamed) body body'

namespace Node

variable {p q : String} {n n' : Node}

/-- The statements of a program that correspond to those of its renamed version. -/
abbrev RenamedStatement (p q : String) : Node → Node → Prop :=
  SameStatement (SameExpression (RenamedName p q false)) (fun _ => True) (RenamedFunction p q)

private theorem same_of_not_mem (hn : n.IsExpression) (hq : q ∉ n.names) :
    SameExpression (RenamedName p q false) n n :=
  hn.same_self fun _ hx => ⟨fun h => hq (h ▸ hx), rfl⟩

/-- A statement without the new name corresponds to itself. -/
theorem IsStatement.same_of_not_mem (hn : n.IsStatement) (hq : q ∉ n.names) :
    RenamedStatement p q n n := by
  induction hn with
  | block m _ ih =>
    exact .block m (List.forall₂_same.mpr fun s hs => ih s hs fun h => hq (mem_names_of_mem hs h))
  | declaration x _ m he =>
    exact .declaration x _ m (Node.same_of_not_mem he fun h => hq (mem_names_of_mem (by simp) h))
  | @function x _ ps body m' m hbody =>
    have hps : q ∉ (parameterList ps m').names := fun h => hq (mem_names_of_mem (by simp) h)
    have hbody : SameExpression (RenamedName p q false) body body :=
      Node.same_of_not_mem hbody fun h => hq (mem_names_of_mem (by simp) h)
    rw [names_parameterList] at hps
    refine .function x _ m' m ⟨false, ?_, hps, nofun, hbody⟩
    simp [renameIn]
  | assignment x _ m he =>
    exact .assignment _ m trivial
      (Node.same_of_not_mem he fun h => hq (mem_names_of_mem (by simp) h))
  | print m he =>
    exact .print m (Node.same_of_not_mem he fun h => hq (mem_names_of_mem (by simp) h))
  | loop m' m ht _ ih =>
    exact .loop m (Node.same_of_not_mem ht fun h => hq (mem_names_of_mem (by simp) h))
      (ih fun h => hq (mem_names_of_mem (by simp) h))

private theorem same_function (x : String) (position : Position) (ps : List (String × Position))
    {body : Node} (m' m : Mark) (hbody : body.IsExpression) (hps : q ∉ (parameterList ps m').names)
    (hq : q ∉ body.names) (hp : p ∈ (parameterList ps m').names) :
    RenamedStatement p q
      (.tree StatementForm.function.label
        [.token TokenForm.name.type x position, parameterList ps m', body] m)
      (.tree StatementForm.function.label
        [.token TokenForm.name.type x position, (parameterList ps m').mapNames (rename p q),
          body.mapNames (rename p q)] m) := by
  have hsame : SameExpression (RenamedName p q true) body (body.mapNames (rename p q)) :=
    hbody.same_mapNames fun y hy => ⟨fun h => hq (h ▸ hy), rfl⟩
  rw [names_parameterList] at hps hp
  rw [mapNames_parameterList]
  refine .function x position m' m ⟨true, ?_, hps, fun _ => hp, hsame⟩
  simp [renameIn, Function.comp_def]

/-- A statement corresponds to its renamed version. -/
theorem IsStatement.same_of_renames (hn : n.IsStatement) (hq : q ∉ n.names)
    (hrenames : RenamesParameter p q n n') : RenamedStatement p q n n' := by
  induction hn generalizing n' with
  | block m hss ih =>
    obtain ⟨ss', rfl, hone⟩ := hrenames.changesOne (by decide)
    exact .block m (hone.forall₂
      (fun s hs => (hss s hs).same_of_not_mem fun h => hq (mem_names_of_mem hs h))
      fun s hs _ h => ih s hs (fun hmem => hq (mem_names_of_mem hs hmem)) h)
  | declaration x _ m he =>
    refine absurd hrenames (not_renamesParameter_tree (by decide) ?_)
    simp [not_renamesParameter_token, he.not_renamesParameter]
  | @function x position ps body m' m hbody =>
    generalize hn : Node.tree StatementForm.function.label
      [.token TokenForm.name.type x position, parameterList ps m', body] m = n at hrenames
    cases hrenames with
    | here m hp =>
      cases hn
      exact same_function x position ps m' m hbody (fun h => hq (mem_names_of_mem (by simp) h))
        (fun h => hq (mem_names_of_mem (by simp) h)) hp
    | inside label m hone =>
      -- nothing is renamed in a name, in a list of parameters or in an expression
      cases hn
      obtain ⟨c, hc, c', h⟩ := hone.exists_mem
      simp only [List.mem_cons, List.not_mem_nil, or_false] at hc
      obtain rfl | rfl | rfl := hc
      · exact absurd h not_renamesParameter_token
      · exact absurd h not_renamesParameter_parameterList
      · exact absurd h hbody.not_renamesParameter
  | assignment x _ m he =>
    refine absurd hrenames (not_renamesParameter_tree (by decide) ?_)
    simp [not_renamesParameter_token, he.not_renamesParameter]
  | print m he =>
    refine absurd hrenames (not_renamesParameter_tree (by decide) ?_)
    simp [he.not_renamesParameter]
  | loop m' m ht hbody ih =>
    obtain ⟨children', rfl, hone⟩ := hrenames.changesOne (by decide)
    cases hone with
    | head _ h => exact absurd h ht.not_renamesParameter
    | tail _ hone =>
      cases hone with
      | head _ h =>
        exact .loop m (Node.same_of_not_mem ht fun h => hq (mem_names_of_mem (by simp) h))
          (ih (fun h => hq (mem_names_of_mem (by simp) h)) h)
      | tail _ hone => nomatch hone

end Node

/-! ### Halts of one kind -/

/-- Halts that differ in the texts and locations of errors alone. -/
inductive Halt.SameKind : Halt → Halt → Prop
  | error {e e' : Error} (h : e.kind = e'.kind) : SameKind (.error e) (.error e')
  | defect (d : Defect) : SameKind (.defect d) (.defect d)
  | overflow : SameKind .overflow .overflow
  | unfinished : SameKind .unfinished .unfinished

theorem Halt.isComparison_sameKind : Halt.IsComparison Halt.SameKind where
  ordinary _ := .error rfl
  overflow := .overflow
  unfinished := .unfinished

theorem Halt.SameKind.locate {h h' : Halt} (hh : h.SameKind h') (p p' : Position) :
    (h.locate p).SameKind (h'.locate p') := by
  cases hh with
  | error h => exact .error h
  | defect d => exact .defect d
  | overflow => exact .overflow
  | unfinished => exact .unfinished

theorem Halt.SameKind.leaveProgram {h h' : Halt} (hh : h.SameKind h') :
    h.leaveProgram.SameKind h'.leaveProgram := by
  cases hh with
  | error h => exact .error h
  | defect d => exact .defect d
  | overflow => exact .error rfl
  | unfinished => exact .unfinished

/-! ### The simulation -/

/-- The closures that correspond to one another. -/
structure RenamedClosure (γ : Ground) (p q : String) (c c' : Closure) : Prop where
  id : c.id = c'.id
  frame : c.frame = some γ.globals
  frame' : c'.frame = some γ.globals
  function : RenamedFunction p q c.parameters c.body c'.parameters c'.body

/-- What a program and its renamed version have in common. -/
def renamingFooting (γ : Ground) (o : Options) (p q : String) : Footing where
  ground := γ
  left := o
  right := o
  closures := RenamedClosure γ p q
  visible _ := True
  halts := Halt.SameKind
  excused _ := False
  sink_eq := rfl
  comparison := Halt.isComparison_sameKind
  excused_hidden _ h := h trivial

/-- The local names of a call and of the renamed one. In the function whose parameter is renamed,
this parameter is among them. -/
structure RenamedLocals (γ : Ground) (o : Options) (p q : String) (renamed : Bool) (f f' : FrameId)
    (w w' : World) (locals locals' : String → Option Value) : Prop where
  within : γ.Within o w.store f locals
  within' : γ.Within o w'.store f' locals'
  values : ∀ x, x ≠ q → Option.Rel (Value.Related (RenamedClosure γ p q)) (locals x)
    (locals' (renameIn p q renamed x))
  renamed : renamed = true → (locals p).isSome = true

/-- A program beside its renamed version. -/
def renamingSetting (γ : Ground) (o : Options) (p q : String) : Setting where
  worlds := (renamingFooting γ o p q).Stands
  grows w w' v v' := w.Extends v ∧ w'.Extends v'
  halts := Halt.SameKind
  excused _ := False
  grows_refl := World.Extends.refl_both
  grows_trans := @World.Extends.trans_both
  comparison := Halt.isComparison_sameKind
  Context := Bool
  closures := RenamedClosure γ p q
  nodes renamed := Node.SameExpression (RenamedName p q renamed)
  names := RenamedName p q
  scope renamed f f' w w' :=
    ∃ locals locals', RenamedLocals γ o p q renamed f f' w w' locals locals'

section Laws

variable {γ : Ground} {o : Options} {p q : String} {renamed : Bool} {f f' : FrameId} {w w' : World}

/-- A name that is local to neither call is not the renamed parameter. -/
private theorem renameIn_eq_self {locals locals' : String → Option Value} {x : String}
    (h : RenamedLocals γ o p q renamed f f' w w' locals locals') (hx : locals x = none) :
    renameIn p q renamed x = x := by
  cases renamed with
  | false => rfl
  | true =>
    have hne : x ≠ p := by
      rintro rfl
      have hsome := h.renamed rfl
      rw [hx] at hsome
      cases hsome
    simp [renameIn, rename, hne]

private theorem renaming_lookup {x x' : String} (hx : RenamedName p q renamed x x')
    (hscope : (renamingSetting γ o p q).scope renamed f f' w w')
    (hworlds : (renamingFooting γ o p q).Stands w w') :
    (renamingSetting γ o p q).Agrees (renamingSetting γ o p q).values (Run.lookup f x)
      (Run.lookup f' x') w w' := by
  obtain ⟨hxq, rfl⟩ := hx
  obtain ⟨locals, locals', hlocals⟩ := hscope
  have hrel : Option.Rel (renamingSetting γ o p q).values (w.store.lookup? f x)
      (w'.store.lookup? f' (renameIn p q renamed x)) := by
    rw [hlocals.within.lookup?_eq hworlds.holds, hlocals.within'.lookup?_eq hworlds.holds']
    have hvalues := hlocals.values x hxq
    cases hx : locals x with
    | some v =>
      rw [hx] at hvalues
      generalize locals' (renameIn p q renamed x) = r at hvalues ⊢
      cases hvalues with
      | some h => exact .some h
    | none =>
      rw [hx, renameIn_eq_self hlocals hx] at hvalues
      rw [renameIn_eq_self hlocals hx]
      generalize locals' x = r at hvalues ⊢
      cases hvalues with
      | none => exact hworlds.visible_rel trivial
  unfold Coupling.Agrees
  rw [Run.lookup_apply, Run.lookup_apply]
  generalize w.store.lookup? f x = r, w'.store.lookup? f' (renameIn p q renamed x) = r' at hrel ⊢
  cases hrel with
  | some h => exact .ok h hworlds ⟨.refl w, .refl w'⟩
  | none => exact .error (.error rfl) hworlds ⟨.refl w, .refl w'⟩

/-- The parameters of a call and of the renamed one. -/
private theorem renamedLocals_of_call {ps : List String} (hq : q ∉ ps)
    (hp : renamed = true → p ∈ ps) {vs vs' : List Value}
    (hvs : List.Forall₂ (Value.Related (RenamedClosure γ p q)) vs vs')
    (hlength : vs.length = ps.length) (hf : γ.Within o w.store f fun x => (ps.zip vs).lookup x)
    (hf' : γ.Within o w'.store f' fun x => ((ps.map (renameIn p q renamed)).zip vs').lookup x) :
    RenamedLocals γ o p q renamed f f' w w' (fun x => (ps.zip vs).lookup x)
      fun x => ((ps.map (renameIn p q renamed)).zip vs').lookup x where
  within := hf
  within' := hf'
  values _ hx := Value.Related.lookup_zip (P := (· ≠ q))
    (fun _ _ hx hy => renameIn_injective renamed hx hy) (fun _ hy h => hq (h ▸ hy)) hvs hx
  renamed hrenamed := isSome_lookup_zip hlength (hp hrenamed)

private theorem renaming_call (ho : o.scoping = .lexical) {eval eval' : Evaluator}
    (heval : (renamingSetting γ o p q).Evaluates eval eval') {x x' : String} {k k' : Closure}
    (hk : RenamedClosure γ p q k k') {vs vs' : List Value}
    (hvs : List.Forall₂ (renamingSetting γ o p q).values vs vs')
    (hscope : (renamingSetting γ o p q).scope renamed f f' w w')
    (hworlds : (renamingFooting γ o p q).Stands w w') :
    (renamingSetting γ o p q).Agrees (renamingSetting γ o p q).values (callClosure eval x k vs f)
      (callClosure eval' x' k' vs' f') w w' := by
  obtain ⟨locals, locals', hlocals⟩ := hscope
  obtain ⟨renamed', hps, hq, hp, hbody⟩ := hk.function
  have hcount : k'.parameters.length = k.parameters.length := by rw [hps, List.length_map]
  by_cases hlength : vs.length = k.parameters.length
  · have hlength' : vs'.length = k'.parameters.length := by rw [hcount, ← hvs.length_eq, hlength]
    have hrepeated : firstRepeated [] k'.parameters =
        (firstRepeated [] k.parameters).map (renameIn p q renamed') := by
      rw [hps]
      exact firstRepeated_map (P := (· ≠ q)) (fun _ _ hx hy => renameIn_injective renamed' hx hy) []
        nofun fun y hy h => hq (h ▸ hy)
    obtain ⟨v, hv, hwithin, hcall⟩ :=
      hworlds.holds.callClosure_apply hlocals.within ho hk.frame hlength eval x
    obtain ⟨v', hv', hwithin', hcall'⟩ :=
      hworlds.holds'.callClosure_apply hlocals.within' ho hk.frame' hlength' eval' x'
    have hstands := hworlds.extends hv hv'
    unfold Coupling.Agrees
    rw [hcall, hcall', hrepeated]
    cases hnone : firstRepeated [] k.parameters with
    | some y => exact .error (.error rfl) hstands ⟨hv, hv'⟩
    | none =>
      have hf' := hwithin' (by rw [hrepeated, hnone]; rfl)
      rw [hps] at hf'
      have hlocals := renamedLocals_of_call hq hp hvs hlength (hwithin hnone) hf'
      exact (heval hbody ⟨_, _, hlocals⟩ hstands).trans ⟨hv, hv'⟩
  · have hlength' : vs'.length ≠ k'.parameters.length := by rwa [hcount, ← hvs.length_eq]
    rw [callClosure_of_length_ne hlength, callClosure_of_length_ne hlength']
    exact .throw (.error rfl) hworlds

end Laws

/-- The expressions of a program beside those of its renamed version. -/
def renamingExpressions (γ : Ground) (o : Options) (p q : String) (ho : o.scoping = .lexical) :
    Simulation where
  toSetting := renamingSetting γ o p q
  shape h := h.shape fun _ => .error rfl
  closures_id h := h.id
  halts_locate _ h := h.locate _ _
  excused_locate _ := False.elim
  excused_overflow := False.elim
  halts_notCallable _ _ := .error rfl
  scope_grows := by
    rintro renamed f f' w w' v v' ⟨locals, locals', h⟩ ⟨hv, hv'⟩
    exact ⟨locals, locals', h.within.kept hv.frames, h.within'.kept hv'.frames, h.values, h.renamed⟩
  lookup := renaming_lookup
  call heval _ hk hvs hscope hworlds := renaming_call ho heval hk hvs hscope hworlds

/-- The simulation of a program by its renamed version. -/
def renamingProgram (γ : Ground) (o : Options) (p q : String) (ho : o.scoping = .lexical) :
    ProgramSimulation where
  toSimulation := renamingExpressions γ o p q ho
  outermost := false
  top f f' := f = γ.globals ∧ f' = γ.globals
  statements := Node.RenamedStatement p q
  targets _ := True
  functions := RenamedFunction p q
  changes _ _ _ _ := True
  changes_refl _ _ := trivial
  changes_trans _ _ := trivial
  changes_of_grows _ := trivial
  scope_top := by
    rintro f f' w w' ⟨rfl, rfl⟩ _
    exact ⟨_, _, .globals, .globals, fun _ _ => .none, nofun⟩
  statement_shape h := h.shape
  halts_locate_statement _ h := h.locate _ _
  halts_leaveProgram h := h.leaveProgram
  excused_leaveProgram := id
  start _ h := (renamingFooting γ o p q).note_agrees _ _ h
  finish h := (renamingFooting γ o p q).note_agrees _ _ h
  declare := by
    rintro x v v' f f' w w' hv ⟨rfl, rfl⟩ h
    exact (renamingFooting γ o p q).declare_noted_agrees hv h
  declareFunction := by
    rintro x ps body ps' body' f f' w w' hfunction ⟨rfl, rfl⟩ h
    exact (renamingFooting γ o p q).declareFunction_noted_agrees
      (fun _ => ⟨rfl, rfl, rfl, hfunction⟩) h
  assign := by
    rintro x v v' f f' w w' _ hv ⟨rfl, rfl⟩ h
    exact (renamingFooting γ o p q).assign_agrees trivial hv h
  print := by
    rintro line f f' w w' ⟨rfl, rfl⟩ h
    exact (renamingFooting γ o p q).print_agrees line h

/-! ### Renaming does not show -/

/-- A program corresponds to its renamed version. -/
theorem Node.IsProgram.same_of_renames {program program' : Node} {p q : String}
    (hprogram : program.IsProgram) (hq : q ∉ program.names)
    (hrenames : program.RenamesParameter p q program') :
    Node.SameProgram (Node.RenamedStatement p q) program program' := by
  obtain ⟨m', m, hss⟩ := hprogram
  obtain ⟨children', rfl, hone⟩ := hrenames.changesOne (by decide)
  cases hone with
  | tail _ hone => nomatch hone
  | head _ hblock =>
    obtain ⟨ss', rfl, hone⟩ := hblock.changesOne (by decide)
    have hfresh {s : Node} (hs : s ∈ _) : q ∉ s.names := fun h =>
      hq (mem_names_of_mem List.mem_cons_self (mem_names_of_mem hs h))
    exact .block m' m (hone.forall₂ (fun s hs => (hss s hs).same_of_not_mem (hfresh hs))
      fun s hs _ h => (hss s hs).same_of_renames (hfresh hs) h)

/-- Two ends of a run that are both a success, or both a halt of one kind. -/
inductive Halt.SameEnd : Except Halt Unit → Except Halt Unit → Prop
  | ok : SameEnd (.ok ()) (.ok ())
  | error {h h' : Halt} (hkind : h.SameKind h') : SameEnd (.error h) (.error h')

theorem Halt.SameEnd.unfinished_iff {r r' : Except Halt Unit} (h : SameEnd r r') :
    r = .error .unfinished ↔ r' = .error .unfinished := by
  cases h with
  | ok => exact Iff.rfl
  | error hkind => cases hkind <;> simp

/-- With every number of passes, a program and its renamed version print the same lines and end
alike. -/
theorem interpret_sameEnd_of_renames {program program' : Node} {p q : String}
    (hprogram : program.IsProgram) (hq : q ∉ program.names)
    (hrenames : program.RenamesParameter p q program') {options : Option Options}
    (hlexical : (options.getD {}).scoping = .lexical) (w : World) (passes : Nat) :
    ((interpret passes program none options).after w).printed =
        ((interpret passes program' none options).after w).printed ∧
      Halt.SameEnd ((interpret passes program none options).outcome w)
        ((interpret passes program' none options).outcome w) := by
  obtain ⟨v, hv, hrun⟩ := interpret_fresh passes program options w
  obtain ⟨v', hv', hrun'⟩ := interpret_fresh passes program' options w
  let S := renamingProgram (Ground.fresh (options.getD {}) w) (options.getD {}) p q hlexical
  have hstands : S.worlds v v' := Footing.stands_of_isLaid rfl hv hv'
  have hagrees :
      S.outer.Agrees Eq (interpretIn passes program _) (interpretIn passes program' _) v v' :=
    S.program_agrees passes (hprogram.same_of_renames hq hrenames) (fun _ _ _ h => h.locate _ _)
      ⟨rfl, rfl⟩ hstands
  obtain ⟨hworlds, hends⟩ := hagrees.ends fun _ _ => id
  rw [Run.outcome_congr hrun, Run.outcome_congr hrun', Run.after_congr hrun, Run.after_congr hrun']
  refine ⟨hworlds.printed, ?_⟩
  obtain ⟨a, b, ha, hb, -⟩ | ⟨k, k', hk, hk', hkind⟩ := hends
  · rw [ha, hb]
    exact .ok
  · rw [hk, hk']
    exact .error hkind

/-- **A parameter may be renamed under lexical scoping.** Let `q` be a name that does not occur in a
program, and let one parameter `p` of one function be renamed to `q`, in the list of parameters and
in the body. Then the program terminates if and only if its renamed version does, and with every
number of passes they print the same lines and both succeed or both fail with an error of the same
kind. -/
theorem interpret_renamed_parameter {program program' : Node} {p q : String}
    (hprogram : program.IsProgram) (hq : q ∉ program.names)
    (hrenames : program.RenamesParameter p q program') (options : Option Options)
    (hlexical : (options.getD {}).scoping = .lexical) (w : World) :
    (Terminates program options w ↔ Terminates program' options w) ∧
      ∀ passes,
        ((interpret passes program none options).after w).printed =
            ((interpret passes program' none options).after w).printed ∧
          Halt.SameEnd ((interpret passes program none options).outcome w)
            ((interpret passes program' none options).outcome w) := by
  have hends := interpret_sameEnd_of_renames hprogram hq hrenames hlexical w
  refine ⟨exists_congr fun passes => not_congr ?_, hends⟩
  exact (hends passes).2.unfinished_iff

/-- A program with a function that negates its parameter, and with a global name `x`. -/
def negationProgram (parameter : String) : Node :=
  .program (.block
    [.declaration (.name "x") (.boolean true),
      .function (.name "f") [.name parameter] (.unary "!" (.name parameter)),
      .print (.call (.name "f") [.name "x"])])

private theorem negationProgram_isProgram (parameter : String) :
    (negationProgram parameter).IsProgram := by
  refine .block {} {} fun s hs => ?_
  simp only [List.mem_cons, List.not_mem_nil, or_false] at hs
  obtain rfl | rfl | rfl := hs
  · exact .declaration "x" {} {} (.true {})
  · exact .function "f" {} [(parameter, {})] {} {} (.unary "!" {} {} (.name parameter {}))
  · refine .print {} (.call "f" {} {} {} fun e he => ?_)
    obtain rfl := List.mem_singleton.mp he
    exact .name "x" {}

private theorem negationProgram_renames :
    (negationProgram "x").RenamesParameter "x" "y" (negationProgram "y") :=
  .inside _ {} (.head [] (.inside _ {} (.tail _ (.head _ (.here {} (by decide))))))

/-- The parameter of the program's function may be renamed, although it has the name of a global. -/
theorem interpret_renamed_parameter_of_negation :
    (negationProgram "x").IsProgram ∧ "y" ∉ (negationProgram "x").names ∧
      (negationProgram "x").RenamesParameter "x" "y" (negationProgram "y") ∧
      (interpret 1 (negationProgram "x") none none).outcome {} = .ok () ∧
      (Terminates (negationProgram "x") none {} ↔ Terminates (negationProgram "y") none {}) ∧
      ((interpret 1 (negationProgram "x") none none).after {}).printed =
        ((interpret 1 (negationProgram "y") none none).after {}).printed ∧
      Halt.SameEnd ((interpret 1 (negationProgram "x") none none).outcome {})
        ((interpret 1 (negationProgram "y") none none).outcome {}) := by
  have hfresh : "y" ∉ (negationProgram "x").names := by decide
  have h := interpret_renamed_parameter (negationProgram_isProgram "x") hfresh
    negationProgram_renames none rfl {}
  exact ⟨negationProgram_isProgram "x", hfresh, negationProgram_renames, rfl, h.1, h.2 1⟩

end Bella
