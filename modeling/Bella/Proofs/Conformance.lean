import Bella.Proofs.Enclosure
import Bella.Proofs.Grammar
import Bella.Proofs.Simulation.Safety

/-!
# Programs that keep to the grammar

A tree of the grammar has all the parts that the evaluator asks for, so it is never refused as
malformed, provided that its numerals spell numbers. It may still be refused for an operator, as the
grammar leaves the symbols of operators open. The bodies of the functions that a program declares
are expressions of the program, so what is evaluated in a call keeps to the grammar as well.

## Main definitions

* `Bella.Node.numerals`, `Bella.Node.unarySymbols`, `Bella.Node.binarySymbols`: the texts in a tree
  that the grammar leaves open.
* `Bella.conformance`: what the run of a program keeps that meets only nodes of the program.

## Main results

* `Bella.interpret_error_kind_of_isProgram`: how a program of the grammar may fail.
-/

namespace Bella

/-! ### Operators -/

/-- The symbols of the operators before an operand. -/
def UnaryOp.symbols : List String := ["-", "!"]

/-- The symbols of the operators between operands. -/
def BinaryOp.symbols : List String :=
  ["+", "-", "*", "/", "%", "**", "<", ">", "<=", ">=", "==", "!=", "&&", "||"]

/-- A symbol that is not known is none of those that are. -/
private theorem not_mem_of_unknown {α : Type} {ofSymbol? : String → Option α}
    {symbols : List String} (hknown : ∀ t ∈ symbols, (ofSymbol? t).isSome = true) {s : String}
    (h : ofSymbol? s = none) : s ∉ symbols := by
  intro hs
  have hsome := hknown s hs
  rw [h] at hsome
  cases hsome

theorem UnaryOp.not_mem_symbols {s : String} (h : ofSymbol? s = none) : s ∉ symbols :=
  not_mem_of_unknown (by decide) h

theorem BinaryOp.not_mem_symbols {s : String} (h : ofSymbol? s = none) : s ∉ symbols :=
  not_mem_of_unknown (by decide) h

/-! ### Texts that the grammar leaves open -/

namespace Node

/-- The text of a numeral. -/
def numeralText? : Node → Option String
  | .token type text _ => if type = TokenForm.numeral.type then some text else none
  | _ => none

/-- The symbol of an operator before its operand. -/
def unarySymbol? : Node → Option String
  | .tree label (op :: _) _ =>
    if label = ExpressionForm.unary.label then some op.symbolText else none
  | _ => none

/-- The symbol of an operator between its operands. -/
def binarySymbol? : Node → Option String
  | .tree label (_ :: op :: _) _ =>
    if label = ExpressionForm.binary.label then some op.symbolText else none
  | _ => none

/-- The texts of the numerals in a tree. -/
def numerals (n : Node) : List String := n.subtrees.filterMap numeralText?

/-- The symbols before operands in a tree. -/
def unarySymbols (n : Node) : List String := n.subtrees.filterMap unarySymbol?

/-- The symbols between operands in a tree. -/
def binarySymbols (n : Node) : List String := n.subtrees.filterMap binarySymbol?

/-- The cause is a symbol in the program that belongs to no operator. -/
inductive Misspells (program : Node) : Cause → Prop
  | unary {s : String} (hs : s ∈ program.unarySymbols) (hunknown : s ∉ UnaryOp.symbols) :
      Misspells program (.unknownUnary s)
  | binary {s : String} (hs : s ∈ program.binarySymbols) (hunknown : s ∉ BinaryOp.symbols) :
      Misspells program (.unknownBinary s)

variable {program n : Node}

/-! ### Nodes of a program -/

/-- The node is an expression of the program. -/
def IsExpressionOf (program n : Node) : Prop := n.IsExpression ∧ n ∈ program.subtrees

/-- The node is a statement of the program, or the program itself. -/
def IsStatementOf (program n : Node) : Prop :=
  (n.IsStatement ∨ n.IsProgram) ∧ n ∈ program.subtrees

/-- An expression of a program has expressions of the program as its parts. If it is refused, an
operator of the program is unknown. -/
theorem IsExpressionOf.shape (hnumerals : ∀ text ∈ program.numerals, (Numeral.read? text).isSome)
    (hn : program.IsExpressionOf n) :
    ExpressionMatch (fun e e' => e = e' ∧ program.IsExpressionOf e) Eq
      (fun h h' => h = h' ∧ h.IsRegular program.Misspells) n n := by
  obtain ⟨hexpression, hmem⟩ := hn
  have hpart {e : Node} (he : e.IsExpression) (hc : e ∈ n.children) :
      e = e ∧ program.IsExpressionOf e :=
    ⟨rfl, he, subtrees_subset hmem (mem_subtrees_of_mem_children hc)⟩
  cases hexpression with
  | numeral text p =>
    refine .numeral p p fun hread => ?_
    have htext : text ∈ program.numerals := List.mem_filterMap.mpr ⟨_, hmem, by simp [numeralText?]⟩
    have hsome := hnumerals text htext
    rw [hread] at hsome
    cases hsome
  | true p => exact .boolean Bool.true (fun _ _ => rfl) fun _ _ => rfl
  | false p => exact .boolean Bool.false (fun _ _ => rfl) fun _ _ => rfl
  | name x p => exact .name rfl
  | unary symbol p m he =>
    refine .unary_of_symbol rfl (hpart he (by simp [children])) fun hnone => ⟨rfl, .inr (.unary ?_ ?_)⟩
    · exact List.mem_filterMap.mpr ⟨_, hmem, by simp [unarySymbol?]⟩
    · exact UnaryOp.not_mem_symbols hnone
  | binary symbol p m hl hr =>
    refine .binary_of_symbol rfl (hpart hl (by simp [children])) (hpart hr (by simp [children]))
      fun hnone => ⟨rfl, .inr (.binary ?_ ?_)⟩
    · exact List.mem_filterMap.mpr ⟨_, hmem, by simp [binarySymbol?]⟩
    · exact BinaryOp.not_mem_symbols hnone
  | conditional m ht ha hb =>
    exact .conditional (hpart ht (by simp [children])) (hpart ha (by simp [children]))
      (hpart hb (by simp [children]))
  | array m hes => exact .array (List.forall₂_same.mpr fun e he => hpart (hes e he) he)
  | subscript m ht hi =>
    exact .subscript (hpart ht (by simp [children])) (hpart hi (by simp [children]))
  | @call x p es m' m hes =>
    have harguments : Node.tree argumentsLabel es m' ∈ program.subtrees :=
      subtrees_subset hmem (mem_subtrees_of_mem_children (by simp [children]))
    have hes' : List.Forall₂ (fun e e' => e = e' ∧ program.IsExpressionOf e) es es :=
      List.forall₂_same.mpr fun e he =>
        ⟨rfl, hes e he, subtrees_subset harguments (mem_subtrees_of_mem_children he)⟩
    exact .call rfl (.items (fun _ _ => rfl) (fun _ _ => rfl) hes')

/-- A statement of a program has statements and expressions of the program as its parts, and it is
not refused. -/
theorem IsStatementOf.shape {halts : Halt → Halt → Prop} (hn : program.IsStatementOf n) :
    StatementMatch (fun s s' => s = s' ∧ program.IsStatementOf s)
      (fun e e' => e = e' ∧ program.IsExpressionOf e) (fun _ => True)
      (fun ps body ps' body' => ps = ps' ∧ body = body' ∧ program.IsExpressionOf body) halts n n := by
  obtain ⟨hstatement, hmem⟩ := hn
  have hchild {c : Node} (hc : c ∈ n.children) : c ∈ program.subtrees :=
    subtrees_subset hmem (mem_subtrees_of_mem_children hc)
  obtain hstatement | @⟨ss, m', m, hss⟩ := hstatement
  · cases hstatement with
    | block m hss =>
      exact .block (fun _ _ _ => rfl) (fun _ _ _ => rfl)
        (List.forall₂_same.mpr fun s hs => ⟨rfl, .inl (hss s hs), hchild hs⟩)
    | declaration x p m he => exact .declaration ⟨rfl, he, hchild (by simp [children])⟩
    | function x p ps m' m hbody =>
      exact .function (parameters_parameterList ps m') (parameters_parameterList ps m')
        ⟨rfl, rfl, hbody, hchild (by simp [children])⟩
    | assignment x p m he => exact .assignment trivial ⟨rfl, he, hchild (by simp [children])⟩
    | print m he => exact .print ⟨rfl, he, hchild (by simp [children])⟩
    | loop m' m ht hbody =>
      exact .loop ⟨rfl, ht, hchild (by simp [children])⟩
        ⟨rfl, .inl hbody, hchild (by simp [children])⟩
  · -- The statements of a program stand one level further down, in its block.
    have hblock : Node.tree StatementForm.block.label ss m' ∈ program.subtrees :=
      hchild (by simp [children])
    exact .program (fun _ _ _ => rfl) (fun _ _ _ => rfl) (List.forall₂_same.mpr fun s hs =>
      ⟨rfl, .inl (hss s hs), subtrees_subset hblock (mem_subtrees_of_mem_children hs)⟩)

end Node

/-! ### Runs -/

/-- In a region whose closures have expressions of a program as their bodies, the statements of the
program lead to its statements and expressions, and only unknown operators are refused. -/
def conformance (program : Node) (ρ : Region)
    (hnumerals : ∀ text ∈ program.numerals, (Numeral.read? text).isSome) : Safety where
  toProgramInvariant := Enclosure.invariant ⟨ρ, program.IsExpressionOf⟩
  expressions := program.IsExpressionOf
  statements := program.IsStatementOf
  refusals := program.Misspells
  body hk := hk.1
  expression_shape hn := hn.shape hnumerals
  statement_shape hn := hn.shape

theorem Cause.kind_of_isOrdinary {c : Cause} (h : c.isOrdinary = true) :
    c.kind ≠ .malformed ∧ c.kind ≠ .unknownOperator := by
  unfold isOrdinary at h
  constructor
  · intro hkind
    rw [hkind] at h
    cases h
  · intro hkind
    rw [hkind] at h
    cases h

theorem Node.Misspells.kind_eq {program : Node} {c : Cause} (h : program.Misspells c) :
    c.kind = .unknownOperator := by
  cases h <;> rfl

theorem Node.Misspells.exists_symbol {program : Node} {c : Cause} (h : program.Misspells c) :
    (∃ s ∈ program.unarySymbols, s ∉ UnaryOp.symbols) ∨
      ∃ s ∈ program.binarySymbols, s ∉ BinaryOp.symbols := by
  cases h with
  | unary hs hunknown => exact .inl ⟨_, hs, hunknown⟩
  | binary hs hunknown => exact .inr ⟨_, hs, hunknown⟩

/-- **How a program of the grammar may fail.** A program keeps to the grammar and its numerals spell
numbers. It is run in a fresh frame, or in one from which no function can be reached, under any
options. If it does not end, then a loop was cut off, or there is an error, and not one of a
malformed tree; and if the error is that of an unknown operator, the program has a symbol before an
operand or between operands that belongs to no operator. -/
theorem interpret_error_kind_of_isProgram (passes : Nat) (program : Node) (frame : Option FrameId)
    (options : Option Options) (w : World) (hprogram : program.IsProgram)
    (hnumerals : ∀ text ∈ program.numerals, (Numeral.read? text).isSome)
    (hfresh : ∀ f c, frame = some f → ¬ w.store.Stores f c) (h : Halt)
    (hx : (interpret passes program frame options).outcome w = .error h) :
    h = .unfinished ∨ ∃ e, h = .error e ∧
      e.kind ∈ [.duplicateBinding, .unboundName, .typeMismatch, .arityMismatch, .indexOutOfRange,
        .unknownOperator, .stackOverflow] ∧
      (e.kind = .unknownOperator → (∃ s ∈ program.unarySymbols, s ∉ UnaryOp.symbols) ∨
        ∃ s ∈ program.binarySymbols, s ∉ BinaryOp.symbols) := by
  obtain ⟨ρ, f, v, hf, hv, hrun⟩ := Enclosure.exists_interpretIn passes program frame options w
    program.IsExpressionOf fun f c hframe hc => absurd hc (hfresh f c hframe)
  rw [Run.outcome_congr hrun] at hx
  obtain ⟨u, hu⟩ := Run.outcome_eq_error_iff.mp hx
  obtain ⟨hregular, hne⟩ := (conformance program ρ hnumerals).interpretIn_regular passes
    ⟨.inr hprogram, program.mem_subtrees_self⟩ hprogram.label?_eq hf hv hu
  cases h with
  | unfinished => exact .inl rfl
  | overflow => exact absurd rfl hne
  | defect d => exact hregular.elim
  | error e =>
    have hmalformed : e.kind ≠ .malformed := by
      obtain hordinary | hmisspells := hregular
      · exact (Cause.kind_of_isOrdinary hordinary).1
      · intro hkind
        cases hmisspells.kind_eq.symm.trans hkind
    refine .inr ⟨e, rfl, ?_, fun hkind => ?_⟩
    · cases hkind : e.kind with
      | malformed => exact absurd hkind hmalformed
      | duplicateBinding | unboundName | typeMismatch | arityMismatch | indexOutOfRange
      | unknownOperator | stackOverflow => simp
    · obtain hordinary | hmisspells := hregular
      · exact absurd hkind (Cause.kind_of_isOrdinary hordinary).2
      · exact hmisspells.exists_symbol

/-- A program that declares a function with an unknown operator in its body, and calls it. -/
def misspelledProgram : Node :=
  .program (.block
    [.function (.name "f") [.name "x"]
      (.binary (.name "x") "~" (.ofType TokenForm.numeral.type "1")),
     .print (.call (.name "f") [.boolean true])])

private theorem misspelledProgram_isProgram : misspelledProgram.IsProgram := by
  refine .block {} {} fun s hs => ?_
  obtain rfl | rfl := List.mem_pair.mp hs
  · exact .function "f" {} [("x", {})] {} {}
      (.binary "~" {} {} (.name "x" {}) (.numeral "1" {}))
  · refine .print {} (.call "f" {} {} {} fun e he => ?_)
    cases List.mem_singleton.mp he
    exact .true {}

/-- The program fails with an unknown operator, and the operator is one of its symbols. -/
theorem interpret_error_kind_of_misspelledProgram :
    misspelledProgram.IsProgram ∧
      ∃ e, (interpret 1 misspelledProgram none none).outcome {} = .error (.error e) ∧
        e.kind = .unknownOperator ∧
        ((∃ s ∈ misspelledProgram.unarySymbols, s ∉ UnaryOp.symbols) ∨
          ∃ s ∈ misspelledProgram.binarySymbols, s ∉ BinaryOp.symbols) := by
  have hnumerals : ∀ text ∈ misspelledProgram.numerals, (Numeral.read? text).isSome := by decide
  have hfails : ∃ e, (interpret 1 misspelledProgram none none).outcome {} = .error (.error e) ∧
      e.kind = .unknownOperator := ⟨_, rfl, rfl⟩
  obtain ⟨e, houtcome, hkind⟩ := hfails
  obtain hunfinished | ⟨e', he, -, hsymbols⟩ := interpret_error_kind_of_isProgram 1
    misspelledProgram none none {} misspelledProgram_isProgram hnumerals nofun (.error e) houtcome
  · cases hunfinished
  · cases he
    exact ⟨misspelledProgram_isProgram, e, houtcome, hkind, hsymbols hkind⟩

end Bella
