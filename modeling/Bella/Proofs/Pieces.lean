import Bella.Proofs.Growth
import Bella.Proofs.Levels
import Bella.Proofs.Simulation.Redirect

/-!
# Programs in pieces

A frame keeps its bindings from one program to the next, and a block only puts statements in order.
So it does not matter where a list of statements is cut. It may be run as one program or as two, one
after the other in the same frame; the second one starts in a world that differs from the one in the
middle of the whole program in one record, which no run ever reads, and setting the same options on
the frame again changes nothing.

Nor does it matter which statements are held together by a block of their own. A block without
position leaves no trace but the levels that it takes from its statements, and more levels change
nothing unless they ran out. Blocks may be opened one inside another and in the bodies of loops.

## Main definitions

* `Bella.Node.ofStatements`: a program with the given statements.
* `Bella.Node.Unnests`, `Bella.Node.Spliced`: blocks without position are opened inside a statement,
  and in a list of statements.

## Main results

* `Bella.exec_ofStatements_append`: a program does what its pieces do, one after the other.
* `Bella.exec_below_of_unnests`: a statement does the same with blocks opened inside it.
* `Bella.interpret_in_pieces`: both, for programs.
-/

namespace Bella

/-- The program that consists of some statements. It has one mark and its block has another. -/
def Node.ofStatements (m b : Mark) (ss : List Node) : Node :=
  .tree StatementForm.program.label [.tree StatementForm.block.label ss b] m

/-! ### Statements in order -/

section Append

variable {α β : Type}

theorem execAll_append (exec : Executor) (f : FrameId) (xs ys : List Node) :
    execAll exec f (xs ++ ys) = (do execAll exec f xs; execAll exec f ys) := by
  induction xs with
  | nil => rfl
  | cons x xs ih => simp only [List.cons_append, execAll, ih, bind_assoc]

private theorem Run.within_bind (n : Node) (x : Run α) (g : α → Run β) :
    Run.within n (x >>= g) = (do Run.within n (g (← Run.within n x))) := by
  funext w
  simp only [Run.within_apply, Run.bind_apply]
  cases x w <;> rfl

private theorem exec_ofStatements (passes levels : Nat) (m b : Mark) (ss : List Node)
    (f : FrameId) :
    exec passes (levels + 4) (.ofStatements m b ss) f =
      Run.within (.ofStatements m b []) (execAll (exec passes levels) f ss) := rfl

/-- A program does what its pieces do, one after the other. -/
theorem exec_ofStatements_append (passes levels : Nat) (m b : Mark) (xs ys : List Node)
    (f : FrameId) :
    exec passes levels (.ofStatements m b (xs ++ ys)) f =
      (do
        exec passes levels (.ofStatements m b xs) f
        exec passes levels (.ofStatements m b ys) f) := by
  match levels with
  | levels + 4 => simp only [exec_ofStatements, execAll_append, Run.within_bind]
  | 0 | 1 | 2 | 3 => rfl

end Append

/-! ### Setting options again -/

theorem Store.setOptions_self {s : Store} {i : FrameId} {F : Frame} {o : Options}
    (hget : s.get? i = some F) (ho : F.options = some o) : s.setOptions i o = s := by
  ext1
  apply Array.ext_getElem?
  intro j
  change (s.setOptions i o).get? j = s.get? j
  rw [get?_setOptions]
  by_cases hij : i = j
  · subst hij
    rw [if_pos rfl, hget, Option.map_some, ← ho]
  · rw [if_neg hij]

/-- A frame is prepared without halting, and once it has options a second time changes nothing. -/
private theorem exists_prepareFrame {w : World} {f : FrameId} (hf : f < w.store.next)
    (o : Option Options) :
    ∃ u, prepareFrame (some f) o w = .ok f u ∧
      ∀ v : World, u.store.Evolves Frame.Widens v.store →
        prepareFrame (some f) o v = .ok f v := by
  cases o with
  | none => exact ⟨w, rfl, fun _ _ => rfl⟩
  | some o =>
    refine ⟨{ w with store := w.store.setOptions f o }, rfl, fun v hv => ?_⟩
    have hget : w.store.get? f = some (w.store.frames[f]) := Array.getElem?_eq_getElem hf
    have hset : (w.store.setOptions f o).get? f =
        some { w.store.frames[f] with options := some o } := by
      rw [Store.get?_setOptions, if_pos rfl, hget, Option.map_some]
    obtain ⟨G, hG, hwidens⟩ := hv f _ hset
    have hself : v.store.setOptions f o = v.store := Store.setOptions_self hG hwidens.shape.2.2
    change EStateM.Result.ok f { v with store := v.store.setOptions f o } = _
    rw [hself]

/-! ### A program and its pieces -/

/-- Two actions end alike, in worlds with the same lines and the same frames. -/
structure Run.SameEffect (x y : Run Unit) (w v : World) : Prop where
  outcome : x.outcome w = y.outcome v
  printed : (x.after w).printed = (y.after v).printed
  store : (x.after w).store = (y.after v).store

namespace Run.SameEffect

variable {x y z : Run Unit} {w v u : World}

theorem of_eq (h : x w = y v) : x.SameEffect y w v :=
  ⟨outcome_congr h, congrArg World.printed (after_congr h), congrArg World.store (after_congr h)⟩

theorem symm (h : x.SameEffect y w v) : y.SameEffect x v w :=
  ⟨h.outcome.symm, h.printed.symm, h.store.symm⟩

theorem trans (h : x.SameEffect y w v) (h' : y.SameEffect z v u) : x.SameEffect z w u :=
  ⟨h.outcome.trans h'.outcome, h.printed.trans h'.printed, h.store.trans h'.store⟩

end Run.SameEffect

/-- What has been noted before makes no difference to a program. -/
private theorem leaveProgram_sameEffect (passes : Nat) (n : Node) (f : FrameId) (w : World)
    (r : Record) :
    Run.SameEffect (EStateM.adaptExcept Halt.leaveProgram (exec passes programLevels n f))
      (EStateM.adaptExcept Halt.leaveProgram (exec passes programLevels n f)) w (w.noted r) := by
  let R : Redirection := ⟨id, w.records.toList, w.records.toList ++ [r], rfl⟩
  have hcouples : R.Couples w (w.noted r) := by
    refine ⟨w.store.redirect_id.symm, ?_, rfl, [], ?_, ?_⟩
    · simp [R, World.noted]
    · rw [List.append_nil]
    · rw [List.append_nil, World.noted, Array.toList_push]
  have hagrees : R.coupling.Agrees Eq
      (EStateM.adaptExcept Halt.leaveProgram (exec passes programLevels n f))
      (EStateM.adaptExcept Halt.leaveProgram (exec passes programLevels n f)) w (w.noted r) :=
    (Redirection.exec_agrees hcouples passes programLevels n f).adapt
      (fun _ _ hhalts => congrArg Halt.leaveProgram hhalts) fun _ => False.elim
  obtain ⟨hworlds, hends⟩ := hagrees.ends fun _ _ => id
  refine ⟨?_, ?_, ?_⟩
  · obtain ⟨_, _, hx, hy, -⟩ | ⟨k, k', hk, hk', hkk'⟩ := hends
    · rw [hx, hy]
    · rw [hk, hk', show k = k' from hkk']
  · simpa [R] using hworlds.printed.symm
  · exact (hworlds.store.trans (Store.redirect_id _)).symm

/-- A program that runs in a given frame does what its pieces do there, one after the other. -/
private theorem interpret_append_sameEffect (passes : Nat) (m b : Mark) (xs ys : List Node)
    {w : World} {f : FrameId} (hf : f < w.store.next) (o : Option Options) :
    Run.SameEffect (interpret passes (.ofStatements m b (xs ++ ys)) (some f) o)
      (do
        interpret passes (.ofStatements m b xs) (some f) o
        interpret passes (.ofStatements m b ys) (some f) o) w w := by
  obtain ⟨u, hu, hagain⟩ := exists_prepareFrame hf o
  have hpiece {v v' : World} (hv : prepareFrame (some f) o v = .ok f v') (ss : List Node) :
      interpret passes (.ofStatements m b ss) (some f) o v =
        EStateM.adaptExcept Halt.leaveProgram (exec passes programLevels (.ofStatements m b ss) f)
          (v'.noted (.interpreting (v'.store.options f).scoping)) := by
    rw [interpret, Run.bind_eq_of_ok hv, interpretIn_apply rfl, Run.adaptExcept_apply]
    cases exec passes programLevels (.ofStatements m b ss) f _ <;> rfl
  let start := u.noted (.interpreting (u.store.options f).scoping)
  cases hxs : exec passes programLevels (.ofStatements m b xs) f start with
  | error k v =>
    -- the first piece halts, and the second one is not run
    have hwhole : interpret passes (.ofStatements m b (xs ++ ys)) (some f) o w =
        .error k.leaveProgram v := by
      rw [hpiece hu, Run.adaptExcept_apply, exec_ofStatements_append, Run.bind_eq_of_error hxs]
    have hfirst : interpret passes (.ofStatements m b xs) (some f) o w =
        .error k.leaveProgram v := by
      rw [hpiece hu, Run.adaptExcept_apply, hxs]
    exact .of_eq (hwhole.trans (Run.bind_eq_of_error hfirst).symm)
  | ok a v =>
    have hwidens : u.store.Evolves Frame.Widens v.store := by
      have h := exec_widens passes programLevels (.ofStatements m b xs) f start
      rw [Run.after, hxs] at h
      exact h
    have hwhole : interpret passes (.ofStatements m b (xs ++ ys)) (some f) o w =
        EStateM.adaptExcept Halt.leaveProgram
          (exec passes programLevels (.ofStatements m b ys) f) v := by
      rw [hpiece hu, Run.adaptExcept_apply, exec_ofStatements_append, Run.bind_eq_of_ok hxs,
        Run.adaptExcept_apply]
    have hfirst : interpret passes (.ofStatements m b xs) (some f) o w = .ok a v := by
      rw [hpiece hu, Run.adaptExcept_apply, hxs]
    have hpieces := (Run.bind_eq_of_ok (g := fun _ =>
      interpret passes (.ofStatements m b ys) (some f) o) hfirst).trans (hpiece (hagain v hwidens) ys)
    have hsame := leaveProgram_sameEffect passes (.ofStatements m b ys) f v
      (.interpreting (v.store.options f).scoping)
    exact (Run.SameEffect.of_eq hwhole).trans (hsame.trans (Run.SameEffect.of_eq hpieces).symm)

/-! ### Opening blocks -/

/-- A list of statements in which some blocks without position are opened: their statements stand in
their place. Other statements correspond to one another. -/
inductive Node.Spliced (statements : Node → Node → Prop) : List Node → List Node → Prop
  | nil : Spliced statements [] []
  | cons {s s' : Node} {ss ss' : List Node} (hs : statements s s')
      (hss : Spliced statements ss ss') : Spliced statements (s :: ss) (s' :: ss')
  | opened {b : Node} {inner ss ss' : List Node}
      (hblock : b.label? = some StatementForm.block.label) (hposition : b.position.location? = none)
      (hinner : Spliced statements b.children inner) (hss : Spliced statements ss ss') :
      Spliced statements (b :: ss) (inner ++ ss')

/-- A statement in which some blocks without position are opened, at any depth. -/
inductive Node.Unnests : Node → Node → Prop
  | refl (n : Node) : Unnests n n
  | block {ss ss' : List Node} {m : Mark} (hss : Spliced Unnests ss ss') :
      Unnests (.tree StatementForm.block.label ss m) (.tree StatementForm.block.label ss' m)
  | loop {t body body' : Node} {m : Mark} (hbody : Unnests body body') :
      Unnests (.tree StatementForm.loop.label [t, body] m)
        (.tree StatementForm.loop.label [t, body'] m)
  | program {ss ss' : List Node} {m b : Mark} (hss : Spliced Unnests ss ss') :
      Unnests (.ofStatements m b ss) (.ofStatements m b ss')

theorem Node.Unnests.position_eq {n n' : Node} (h : n.Unnests n') : n.position = n'.position := by
  cases h <;> rfl

/-- A block without position does what its statements do, with three levels less. -/
private theorem exec_block {b : Node} (hblock : b.label? = some StatementForm.block.label)
    (hposition : b.position.location? = none) (passes levels : Nat) (f : FrameId) :
    exec passes (levels + 4) b f = execAll (exec passes (levels + 1)) f b.children := by
  rw [exec_eq_within, Run.within_of_unlocated hposition]
  cases b with
  | tree label children m =>
    obtain rfl := Option.some.inj hblock
    rfl
  | hollow label m =>
    obtain rfl := Option.some.inj hblock
    rfl
  | token | improper | plain | list => cases hblock

section Unnest

variable {passes : Nat} {f : FrameId}

/-- Statements in order do the same if blocks among them are opened. -/
private theorem execAll_below_of_spliced {statements : Node → Node → Prop} {ss ss' : List Node}
    (h : Node.Spliced statements ss ss') {levels levels' : Nat} (hle : levels ≤ levels')
    (hexec : ∀ {k k' n n'}, k ≤ levels → k ≤ k' → statements n n' →
      (exec passes k n f).Below (exec passes k' n' f)) :
    (execAll (exec passes levels) f ss).Below (execAll (exec passes levels') f ss') := by
  induction h generalizing levels levels' with
  | nil => exact .refl _
  | cons hs _ ih => exact .bind (hexec (Nat.le_refl _) hle hs) fun _ => ih hle hexec
  | @opened b inner ss ss' hblock hposition _ _ ihinner ihrest =>
    rw [execAll_append]
    refine .bind ?_ fun _ => ihrest hle hexec
    match levels with
    | levels + 4 =>
      rw [exec_block hblock hposition]
      exact ihinner (by omega) fun hk => hexec (by omega)
    | 0 | 1 | 2 | 3 => exact .overflow _

/-- A statement does the same if blocks are opened inside it, unless it runs out of levels. -/
theorem exec_below_of_unnests {n n' : Node} (h : n.Unnests n') {levels levels' : Nat}
    (hle : levels ≤ levels') : (exec passes levels n f).Below (exec passes levels' n' f) := by
  induction levels using Nat.strongRecOn generalizing n n' f levels' with
  | ind levels ih =>
    match levels with
    | 0 | 1 | 2 | 3 => exact .overflow _
    | left + 4 =>
      obtain ⟨left', rfl⟩ : ∃ left', levels' = left' + 4 := ⟨levels' - 4, by omega⟩
      have hparts : (StatementParts.below passes left).Below (.below passes left') :=
        ⟨by simp only [StatementParts.below]; omega,
          fun s g => ih (left + 1) (by omega) (.refl s) (by omega),
          fun s g => ih left (by omega) (.refl s) (by omega),
          fun e g => eval_below (by omega) e g⟩
      rw [exec_eq_within, exec_eq_within]
      refine .within ?_ h.position_eq
      cases h with
      | refl n => exact execNode_below hparts f passes n
      | block hss =>
        exact execAll_below_of_spliced hss (by omega) fun hk hkk' hs => ih _ (by omega) hs hkk'
      | loop hbody =>
        exact execLoop_below hparts f passes (ih (left + 1) (by omega) hbody (by omega))
      | program hss =>
        exact execAll_below_of_spliced hss (by omega) fun hk hkk' hs => ih _ (by omega) hs hkk'

end Unnest

/-- A program does the same if blocks are opened in it, unless it nests too deeply. -/
private theorem interpret_eq_of_spliced (passes : Nat) (m b : Mark) {ss ss' : List Node}
    (hss : Node.Spliced Node.Unnests ss ss') (frame : Option FrameId) (o : Option Options)
    {w : World}
    (hlevels : (interpret passes (.ofStatements m b ss) frame o).outcome w ≠
      .error (.error { cause := .nestedTooDeeply hostLimit })) :
    interpret passes (.ofStatements m b ss) frame o w =
      interpret passes (.ofStatements m b ss') frame o w := by
  have hprogram (f : FrameId) (v : World) (ts : List Node) :=
    @interpretIn_apply passes (.ofStatements m b ts) f v rfl
  cases hprepare : prepareFrame frame o w with
  | error k v =>
    rw [interpret, interpret, Run.bind_eq_of_error hprepare, Run.bind_eq_of_error hprepare]
  | ok f v =>
    rw [Run.outcome, interpret, Run.bind_eq_of_ok hprepare, hprogram] at hlevels
    rw [interpret, interpret, Run.bind_eq_of_ok hprepare, Run.bind_eq_of_ok hprepare, hprogram,
      hprogram]
    have hbelow : (exec passes programLevels (.ofStatements m b ss) f).Below
        (exec passes programLevels (.ofStatements m b ss') f) :=
      exec_below_of_unnests (.program hss) (Nat.le_refl programLevels)
    rw [hbelow.eq_of_ne fun hoverflow => hlevels ?_]
    obtain ⟨u, hu⟩ := Run.outcome_eq_error_iff.mp hoverflow
    rw [hu]
    rfl

/-- **Running a program in pieces.** In a frame that is there, a program ends as its pieces do, one
after the other in the same frame and with the same options, where the second piece is run if the
first one has succeeded. The same lines are printed, all frames are the same in the end, and an error
has the same location, whatever the statements are and under either policy.

And in every program, unless it nests too deeply, blocks without position can be opened, so that
their statements stand in their place: inside one another, in the bodies of loops, and any number of
them at once. The run ends in the same world and in the same way. -/
theorem interpret_in_pieces (passes : Nat) (w : World) (m b : Mark) :
    (∀ (f : FrameId) (o : Option Options) (xs ys : List Node), f < w.store.next →
      let whole := interpret passes (.ofStatements m b (xs ++ ys)) (some f) o
      let pieces := do
        interpret passes (.ofStatements m b xs) (some f) o
        interpret passes (.ofStatements m b ys) (some f) o
      whole.outcome w = pieces.outcome w ∧
        (whole.after w).printed = (pieces.after w).printed ∧
        (whole.after w).store = (pieces.after w).store) ∧
    ∀ (frame : Option FrameId) (o : Option Options) (ss ss' : List Node),
      Node.Spliced Node.Unnests ss ss' →
      (interpret passes (.ofStatements m b ss) frame o).outcome w ≠
        .error (.error { cause := .nestedTooDeeply hostLimit }) →
      interpret passes (.ofStatements m b ss) frame o w =
        interpret passes (.ofStatements m b ss') frame o w := by
  refine ⟨fun f o xs ys hf => ?_, fun frame o ss ss' hss hlevels => ?_⟩
  · have h := interpret_append_sameEffect passes m b xs ys hf o
    exact ⟨h.outcome, h.printed, h.store⟩
  · exact interpret_eq_of_spliced passes m b hss frame o hlevels

/-! ### A program with blocks inside one another -/

namespace NestedBlocks

/-- A world with one frame, which has no options and binds nothing. -/
def world : World where
  store.frames := #[{ parent := none, label := "global", options := none, bindings := [] }]

/-- Declares a variable and assigns to it in a loop, with blocks in two places. -/
def first : List Node :=
  [.declaration (.name "x") (.boolean true),
   .block [.loop (.name "x") (.block [.block [.assignment (.name "x") (.boolean false)],
     .print (.name "x")])]]

/-- The same statements without the blocks, but for the body of the loop. -/
def opened : List Node :=
  [.declaration (.name "x") (.boolean true),
   .loop (.name "x") (.block [.assignment (.name "x") (.boolean false), .print (.name "x")])]

/-- Negates the variable, which holds no number, at a position. -/
def second : List Node :=
  [.tree StatementForm.print.label [.unary "-" (.name "x")] { position := ⟨some 4, none⟩ }]

theorem spliced_opened : Node.Spliced Node.Unnests (first ++ second) (opened ++ second) := by
  have hone {s s' : Node} (hs : s.Unnests s') : Node.Spliced Node.Unnests [s] [s'] := .cons hs .nil
  have hopened {s s' : Node} {ss : List Node} (hs : s.Unnests s') :
      Node.Spliced Node.Unnests (.block [s] :: ss) ([s'] ++ ss) := by
    refine .opened rfl rfl (hone hs) ?_
    induction ss with
    | nil => exact .nil
    | cons s ss ih => exact .cons (.refl s) ih
  exact .cons (.refl _) (hopened (.loop (.block (hopened (.refl _)))))

/-- Cut in two or with its blocks opened, the program prints one line and fails at the same place. -/
theorem interpret_in_pieces_of_nestedBlocks :
    let whole := interpret 2 (.ofStatements {} {} (first ++ second)) (some 0) none
    let pieces := do
      interpret 2 (.ofStatements {} {} first) (some 0) none
      interpret 2 (.ofStatements {} {} second) (some 0) none
    whole.outcome world = pieces.outcome world ∧
      (whole.after world).store = (pieces.after world).store ∧
      (pieces.after world).printed = #[(.standard, "false")] ∧
      whole world = interpret 2 (.ofStatements {} {} (opened ++ second)) (some 0) none world ∧
      whole.outcome world = .error (.error
        { cause := .needsNumber "Unary '-'" .boolean, location := some ⟨4, none⟩ }) := by
  obtain ⟨hpieces, hopened⟩ := interpret_in_pieces 2 world {} {}
  obtain ⟨houtcome, -, hstore⟩ := hpieces 0 none first second (by decide)
  exact ⟨houtcome, hstore, rfl, hopened (some 0) none _ _ spliced_opened nofun, rfl⟩

end NestedBlocks
end Bella
