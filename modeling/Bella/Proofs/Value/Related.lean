import Bella.Eval.Expression
import Bella.Value.Render
import Mathlib.Data.List.Forall2

/-!
# Values that differ in their closures

Two runs that are compared with one another hold the same numbers, booleans, arrays and builtins,
and closures that may differ. `Value.Related R` says so, for a relation `R` between closures. Checks
and operators look at closures through their identity alone, so related values pass the same checks,
with the same results and the same causes of failure.

## Main definitions

* `Bella.Value.Related`: values that are equal up to related closures.
* `Bella.Cause.isOrdinary`: causes that lie in values and bindings alone.
* `Bella.Check.Alike`: checks that give related results or fail with one ordinary cause.

## Main results

* `Bella.Value.Related.equalsWithin_eq`, `Bella.Value.Related.renderWithin_eq`: related values
  compare and print alike, within every bound.
* `Bella.Check.element_alike`, `Bella.UnaryOp.apply_alike`, `Bella.numericOperands_alike`,
  `Bella.EqualityOp.compareWithin_alike`: checks and operators on related values are alike.
-/

namespace Bella

/-- Values that are equal but for closures, which are related. -/
inductive Value.Related (R : Closure → Closure → Prop) : Value → Value → Prop
  | number (x : Float) : Related R (.number x) (.number x)
  | boolean (b : Bool) : Related R (.boolean b) (.boolean b)
  | array {vs ws : List Value} (h : List.Forall₂ (Related R) vs ws) :
      Related R (.array vs) (.array ws)
  | closure {c d : Closure} (h : R c d) : Related R (.closure c) (.closure d)
  | builtin (b : Builtin) : Related R (.builtin b) (.builtin b)
  | foreign (p : Plain) : Related R (.foreign p) (.foreign p)

namespace Value.Related

variable {R S : Closure → Closure → Prop} {v v' w w' : Value} {vs vs' ws ws' : List Value}

mutual

theorem mono (hRS : ∀ c d, R c d → S c d) {v v' : Value} : Related R v v' → Related S v v'
  | .number x => .number x
  | .boolean b => .boolean b
  | .array h => .array (mono_items hRS h)
  | .closure h => .closure (hRS _ _ h)
  | .builtin b => .builtin b
  | .foreign p => .foreign p

theorem mono_items (hRS : ∀ c d, R c d → S c d) {vs vs' : List Value} :
    List.Forall₂ (Related R) vs vs' → List.Forall₂ (Related S) vs vs'
  | .nil => .nil
  | .cons h hs => .cons (mono hRS h) (mono_items hRS hs)

end

mutual

theorem refl (hR : ∀ c, R c c) : (v : Value) → Related R v v
  | .number x => .number x
  | .boolean b => .boolean b
  | .array vs => .array (refl_items hR vs)
  | .closure c => .closure (hR c)
  | .builtin b => .builtin b
  | .foreign p => .foreign p

theorem refl_items (hR : ∀ c, R c c) : (vs : List Value) → List.Forall₂ (Related R) vs vs
  | [] => .nil
  | v :: vs => .cons (refl hR v) (refl_items hR vs)

end

mutual

/-- Values with equal closures are equal. -/
theorem eq_of_eq {v v' : Value} : Related Eq v v' → v = v'
  | .number _ | .boolean _ | .builtin _ | .foreign _ => rfl
  | .array h => congrArg Value.array (eq_of_eq_items h)
  | .closure h => congrArg Value.closure h

theorem eq_of_eq_items {vs vs' : List Value} : List.Forall₂ (Related Eq) vs vs' → vs = vs'
  | .nil => rfl
  | .cons h hs => congrArg₂ List.cons (eq_of_eq h) (eq_of_eq_items hs)

end

/-! ### Kinds -/

theorem kind_eq (h : Related R v v') : v.kind = v'.kind := by cases h <;> rfl

theorem isFunction_eq (h : Related R v v') : v.isFunction = v'.isFunction := by cases h <;> rfl

theorem sameKind_eq (hv : Related R v v') (hw : Related R w w') :
    v.sameKind w = v'.sameKind w' := by
  rw [sameKind, sameKind, hv.kind_eq, hw.kind_eq]

/-! ### Comparing and printing -/

mutual

/-- Related values compare alike, within every bound. -/
theorem equalsWithin_eq (hR : ∀ c d, R c d → c.id = d.id) {depth : Nat} {v v' w w' : Value}
    (hv : Related R v v') (hw : Related R w w') :
    v.equalsWithin depth w = v'.equalsWithin depth w' := by
  match hv, hw with
  | .array hvs, .array hws =>
    simp only [equalsWithin, hvs.length_eq, hws.length_eq]
    split
    · cases depth with
      | zero => rfl
      | succ depth => exact equalItemsWithin_eq hR hvs hws
    · rfl
  | .closure hc, .closure hd =>
    simp only [equalsWithin, equals, hR _ _ hc, hR _ _ hd]
  | .number _, hw | .boolean _, hw | .builtin _, hw | .foreign _, hw => cases hw <;> rfl
  | .closure _, .number _ | .closure _, .boolean _ | .closure _, .array _ | .closure _, .builtin _
  | .closure _, .foreign _ | .array _, .number _ | .array _, .boolean _ | .array _, .closure _
  | .array _, .builtin _ | .array _, .foreign _ => rfl

theorem equalItemsWithin_eq (hR : ∀ c d, R c d → c.id = d.id) {depth : Nat}
    {vs vs' ws ws' : List Value} (hvs : List.Forall₂ (Related R) vs vs')
    (hws : List.Forall₂ (Related R) ws ws') :
    equalItemsWithin depth vs ws = equalItemsWithin depth vs' ws' := by
  match hvs, hws with
  | .cons hv hvs, .cons hw hws =>
    rw [equalItemsWithin, equalItemsWithin, hv.sameKind_eq hw, equalsWithin_eq hR hv hw,
      equalItemsWithin_eq hR hvs hws]
  | .nil, .nil | .nil, .cons _ _ | .cons _ _, .nil => rfl

end

mutual

/-- Related values have one printed text, within every bound. -/
theorem renderWithin_eq {depth : Nat} {v v' : Value} (h : Related R v v') :
    v.renderWithin depth = v'.renderWithin depth := by
  match h with
  | .array hs =>
    cases depth with
    | zero => rfl
    | succ depth => simp only [renderWithin, renderItemsWithin_eq hs]
  | .number _ | .boolean _ | .closure _ | .builtin _ | .foreign _ => rfl

theorem renderItemsWithin_eq {depth : Nat} {vs vs' : List Value}
    (h : List.Forall₂ (Related R) vs vs') :
    renderItemsWithin depth vs = renderItemsWithin depth vs' := by
  match h with
  | .nil => rfl
  | .cons hv hvs =>
    rw [renderItemsWithin, renderItemsWithin, renderWithin_eq hv, renderItemsWithin_eq hvs]

end

/-! ### Checks of one value -/

theorem number_eq (context : String) (h : Related R v v') :
    Check.number context v = Check.number context v' := by
  cases h <;> rfl

theorem boolean_eq (context : String) (h : Related R v v') :
    Check.boolean context v = Check.boolean context v' := by
  cases h <;> rfl

theorem numbers_eq (builtin : String) (h : List.Forall₂ (Related R) vs vs') :
    Check.numbers builtin vs = Check.numbers builtin vs' := by
  induction h with
  | nil => rfl
  | cons hv _ ih =>
    cases hv with
    | number x => rw [Check.numbers, Check.numbers, ih]
    | boolean | array | closure | builtin | foreign => rfl

end Value.Related

/-! ### Causes that a well-formed tree can meet -/

/-- Whether the cause lies in values and bindings, not in the shape of a tree or an unknown
operator. -/
def Cause.isOrdinary (c : Cause) : Bool :=
  match c.kind with
  | .malformed | .unknownOperator => false
  | _ => true

/-- Two checks that both give a result, or both fail with one ordinary cause. -/
inductive Check.Alike {α β : Type} (ρ : α → β → Prop) : Except Cause α → Except Cause β → Prop
  | ok {a : α} {b : β} (h : ρ a b) : Alike ρ (.ok a) (.ok b)
  | error {c : Cause} (h : c.isOrdinary = true) : Alike ρ (.error c) (.error c)

namespace Check

variable {R : Closure → Closure → Prop} {v v' w w' : Value} {vs vs' : List Value}

theorem Alike.map {α β γ δ : Type} {ρ : α → β → Prop} {τ : γ → δ → Prop} {f : α → γ} {g : β → δ}
    {r : Except Cause α} {r' : Except Cause β} (h : Alike ρ r r')
    (hfg : ∀ a b, ρ a b → τ (f a) (g b)) : Alike τ (r.map f) (r'.map g) := by
  cases h with
  | ok h => exact .ok (hfg _ _ h)
  | error h => exact .error h

theorem number_alike (context : String) (h : v.Related R v') :
    Alike Eq (number context v) (number context v') := by
  rw [h.number_eq]
  cases v' with
  | number x => exact .ok rfl
  | boolean | array | closure | builtin | foreign => exact .error rfl

theorem boolean_alike (context : String) (h : v.Related R v') :
    Alike Eq (boolean context v) (boolean context v') := by
  rw [h.boolean_eq]
  cases v' with
  | boolean b => exact .ok rfl
  | number | array | closure | builtin | foreign => exact .error rfl

theorem numbers_alike (builtin : String) (h : List.Forall₂ (Value.Related R) vs vs') :
    Alike Eq (numbers builtin vs) (numbers builtin vs') := by
  rw [Value.Related.numbers_eq builtin h]
  clear h
  induction vs' with
  | nil => exact .ok rfl
  | cons v vs ih =>
    cases v with
    | number x => exact ih.map fun _ _ h => congrArg _ h
    | boolean | array | closure | builtin | foreign => exact .error rfl

private theorem getElem?_related (h : List.Forall₂ (Value.Related R) vs vs') (i : Nat) :
    Option.Rel (Value.Related R) vs[i]? vs'[i]? := by
  induction h generalizing i with
  | nil => exact .none
  | cons hv _ ih =>
    cases i with
    | zero => exact .some hv
    | succ i => exact ih i

/-- Subscripts of related arrays give related elements. -/
theorem element_alike (hv : v.Related R v') (hw : w.Related R w') :
    Alike (Value.Related R) (element v w) (element v' w') := by
  cases hv with
  | @array items items' hs =>
    simp only [element, index, hw.number_eq, hs.length_eq]
    cases w' with
    | number x =>
      simp only [number]
      cases Number.toInt? x with
      | none => exact .error rfl
      | some k =>
        by_cases hk : k < 0
        · simp only [hk, if_true]
          exact .error rfl
        · simp only [hk, if_false]
          have hitem := getElem?_related hs k.toNat
          generalize items[k.toNat]? = item, items'[k.toNat]? = item' at hitem ⊢
          cases hitem with
          | none => exact .error rfl
          | some h => exact .ok h
    | boolean | array | closure | builtin | foreign => exact .error rfl
  | number | boolean | closure | builtin | foreign => exact .error rfl

end Check

/-! ### Arguments -/

/-- Parameters that are renamed without confusion stand for related arguments. -/
theorem Value.Related.lookup_zip {R : Closure → Closure → Prop} {g : String → String}
    {P : String → Prop} (hg : ∀ x y, P x → P y → g x = g y → x = y) {ps : List String}
    (hps : ∀ y ∈ ps, P y) {vs vs' : List Value} (hvs : List.Forall₂ (Value.Related R) vs vs')
    {x : String} (hx : P x) :
    Option.Rel (Value.Related R) ((ps.zip vs).lookup x) (((ps.map g).zip vs').lookup (g x)) := by
  induction ps generalizing vs vs' with
  | nil => exact .none
  | cons y ps ih =>
    cases hvs with
    | nil => exact .none
    | cons hv hvs =>
      simp only [List.map_cons, List.zip_cons_cons, List.lookup_cons]
      by_cases hxy : x = y
      · subst hxy
        simpa using Option.Rel.some hv
      · have hne : g x ≠ g y := fun h => hxy (hg x y hx (hps y List.mem_cons_self) h)
        rw [beq_eq_false_iff_ne.mpr hxy, beq_eq_false_iff_ne.mpr hne]
        exact ih (fun z hz => hps z (List.mem_cons_of_mem y hz)) hvs

/-- Related names are bound on both sides or on neither. -/
theorem Value.Related.isSome_eq {R : Closure → Closure → Prop} {a b : Option Value}
    (h : Option.Rel (Value.Related R) a b) : a.isSome = b.isSome := by
  cases h <;> rfl

/-- What is looked up in one place and else in another is related if both places are. -/
theorem Value.Related.or_rel {R : Closure → Closure → Prop} {a a' b b' : Option Value}
    (h : Option.Rel (Value.Related R) a b) (h' : Option.Rel (Value.Related R) a' b') :
    Option.Rel (Value.Related R) (a.or a') (b.or b') := by
  cases h with
  | some h => exact .some h
  | none => exact h'

/-- What is given another value, if it has one and a condition is met, stays related. -/
theorem Value.Related.updated_rel {R : Closure → Closure → Prop} {a b : Option Value}
    (h : Option.Rel (Value.Related R) a b) {v v' : Value} (hv : v.Related R v') {p : Prop}
    [Decidable p] :
    Option.Rel (Value.Related R) (if p then a.map fun _ => v else a)
      (if p then b.map fun _ => v' else b) := by
  split
  · cases h with
    | some _ => exact .some hv
    | none => exact .none
  · exact h

/-- Parameters stand for related arguments. -/
theorem Value.Related.lookup_zip_self {R : Closure → Closure → Prop} (ps : List String)
    {vs vs' : List Value} (hvs : List.Forall₂ (Value.Related R) vs vs') (x : String) :
    Option.Rel (Value.Related R) ((ps.zip vs).lookup x) ((ps.zip vs').lookup x) := by
  have h := Value.Related.lookup_zip (g := id) (P := fun _ => True) (fun _ _ _ _ h => h)
    (fun y (_ : y ∈ ps) => trivial) hvs (x := x) trivial
  rwa [List.map_id] at h

/-! ### Operators -/

section Operators

variable {R : Closure → Closure → Prop} {v v' w w' : Value}

theorem UnaryOp.apply_alike (op : UnaryOp) (h : v.Related R v') :
    Check.Alike (Value.Related R) (op.apply v) (op.apply v') := by
  cases op with
  | negate => exact (Check.number_alike _ h).map fun x _ hx => hx ▸ .number (-x)
  | not => exact (Check.boolean_alike _ h).map fun b _ hb => hb ▸ .boolean (!b)

theorem numericOperands_alike (symbol : String) (hv : v.Related R v') (hw : w.Related R w') :
    Check.Alike Eq (numericOperands symbol v w) (numericOperands symbol v' w') := by
  have ha := Check.number_alike (operatorContext symbol) hv
  rw [numericOperands, numericOperands]
  generalize Check.number (operatorContext symbol) v = a,
    Check.number (operatorContext symbol) v' = a' at ha ⊢
  cases ha with
  | ok ha => exact (Check.number_alike _ hw).map fun _ _ hb => by rw [ha, hb]
  | error h => exact .error h

/-- Related operands compare alike, within every bound. -/
theorem EqualityOp.compareWithin_alike (hR : ∀ c d, R c d → c.id = d.id) (depth : Nat)
    (op : EqualityOp) (hv : v.Related R v') (hw : w.Related R w') :
    Option.Rel (Check.Alike (Value.Related R)) (op.compareWithin depth v w)
      (op.compareWithin depth v' w') := by
  rw [compareWithin, compareWithin, hv.sameKind_eq hw, hv.equalsWithin_eq hR hw, hv.kind_eq,
    hw.kind_eq]
  split
  · cases v'.equalsWithin depth w' with
    | none => exact .none
    | some b => exact .some (.ok (.boolean _))
  · exact .some (.error rfl)

/-- What an equality makes of its operands within a bound it makes of them within a larger one. -/
theorem EqualityOp.compareWithin_of_le {depth depth' : Nat} (hle : depth ≤ depth') {op : EqualityOp}
    {r : Except Cause Value} (h : op.compareWithin depth v w = some r) :
    op.compareWithin depth' v w = some r := by
  rw [compareWithin] at h ⊢
  split at h
  · rename_i hkind
    obtain ⟨b, hb, rfl⟩ := Option.map_eq_some_iff.mp h
    rw [if_pos hkind, Value.equalsWithin_of_le hle hb]
    rfl
  · rename_i hkind
    rw [if_neg hkind]
    exact h

end Operators

namespace Value

mutual

theorem isOrdinary_of_render {v : Value} {c : Cause} (h : v.render = .error c) :
    c.isOrdinary = true := by
  match v with
  | .number _ | .boolean _ => simp [render] at h
  | .array items =>
    rw [render] at h
    cases hitems : renderItems items with
    | error d =>
      rw [hitems] at h
      cases h
      exact isOrdinary_of_renderItems hitems
    | ok texts =>
      rw [hitems] at h
      cases h
  | .closure _ | .builtin _ | .foreign _ =>
    cases h
    rfl

theorem isOrdinary_of_renderItems {vs : List Value} {c : Cause} (h : renderItems vs = .error c) :
    c.isOrdinary = true := by
  match vs with
  | [] => simp [renderItems] at h
  | v :: vs =>
    rw [renderItems] at h
    cases hv : render v with
    | error d =>
      rw [hv] at h
      cases h
      exact isOrdinary_of_render hv
    | ok text =>
      rw [hv] at h
      cases hvs : renderItems vs with
      | error d =>
        rw [hvs] at h
        cases h
        exact isOrdinary_of_renderItems hvs
      | ok texts =>
        rw [hvs] at h
        cases h

end

/-- Related values print alike, within every bound. -/
theorem Related.renderWithin_alike {R : Closure → Closure → Prop} {v v' : Value} (depth : Nat)
    (h : v.Related R v') :
    Option.Rel (Check.Alike Eq) (v.renderWithin depth) (v'.renderWithin depth) := by
  rw [h.renderWithin_eq]
  cases hr : v'.renderWithin depth with
  | none => exact .none
  | some r =>
    cases r with
    | ok text => exact .some (.ok rfl)
    | error c => exact .some (.error (isOrdinary_of_render (render_of_renderWithin hr)))

end Value
end Bella
