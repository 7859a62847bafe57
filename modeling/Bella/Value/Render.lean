import Bella.Error

/-!
# Printed values

What a print statement writes: numbers in their printed text, booleans as words, arrays in brackets
with their elements in order. Functions and plain values of the host cannot be printed, nor can an
array that holds one. Where arrays may be too deep to be gone through, `renderWithin` bounds how many
of them lie inside one another on the way to the result; within the bound it agrees with `render`.

## Main definitions

* `Bella.Value.render`: the printed text of a value.
* `Bella.Value.renderWithin`: the same within a bound on the depth.

## Main statements

* `Bella.Value.render_of_renderWithin`: a result within a bound is the result.
* `Bella.Value.renderWithin_of_le`: and it is the result within a larger bound.
-/

namespace Bella.Value

/-- The printed text of a boolean. -/
def booleanText (b : Bool) : String := if b then "true" else "false"

/-- The printed text of an array, given those of its elements. -/
def arrayText (texts : List String) : String := "[" ++ Node.commas texts ++ "]"

mutual

/-- The printed text of a value, or the reason why the first part that has none cannot be printed. -/
def render : Value → Except Cause String
  | .number x => .ok (Number.Layout.printed.write x)
  | .boolean b => .ok (booleanText b)
  | .array items => (renderItems items).map arrayText
  | .closure _ | .builtin _ => .error .functionPrinted
  | .foreign p => .error (.foreignPrinted p.typeName)

/-- The printed texts of some values. -/
def renderItems : List Value → Except Cause (List String)
  | [] => .ok []
  | v :: vs =>
    match render v with
    | .error e => .error e
    | .ok text => (renderItems vs).map (text :: ·)

end

mutual

/-- The printed text of a value or the reason why it has none, if that shows without going through
more than `depth` arrays inside one another. -/
def renderWithin : (depth : Nat) → Value → Option (Except Cause String)
  | depth, .array items =>
    match depth with
    | 0 => none
    | depth + 1 => (renderItemsWithin depth items).map (Except.map arrayText)
  | _, v => some (render v)

/-- The printed texts of some values, within a bound. -/
def renderItemsWithin (depth : Nat) : List Value → Option (Except Cause (List String))
  | [] => some (.ok [])
  | v :: vs =>
    match renderWithin depth v with
    | none => none
    | some (.error e) => some (.error e)
    | some (.ok text) => (renderItemsWithin depth vs).map (Except.map (text :: ·))

end

mutual

/-- A result within a bound is the result. -/
theorem render_of_renderWithin {depth : Nat} {v : Value} {r : Except Cause String}
    (h : renderWithin depth v = some r) : render v = r := by
  match v with
  | .array items =>
    cases depth with
    | zero => contradiction
    | succ depth =>
      obtain ⟨texts, hitems, rfl⟩ := Option.map_eq_some_iff.mp h
      rw [render, renderItems_of_renderItemsWithin hitems]
  | .number _ | .boolean _ | .closure _ | .builtin _ | .foreign _ => exact Option.some.inj h

/-- Results within a bound are the results. -/
theorem renderItems_of_renderItemsWithin {depth : Nat} {vs : List Value}
    {r : Except Cause (List String)} (h : renderItemsWithin depth vs = some r) :
    renderItems vs = r := by
  match vs with
  | [] => exact Option.some.inj h
  | v :: vs =>
    rw [renderItemsWithin] at h
    rw [renderItems]
    split at h
    · contradiction
    · rename_i e hv
      rw [render_of_renderWithin hv]
      exact Option.some.inj h
    · rename_i text hv
      obtain ⟨texts, hvs, rfl⟩ := Option.map_eq_some_iff.mp h
      rw [render_of_renderWithin hv, renderItems_of_renderItemsWithin hvs]

end

mutual

/-- A result within a bound is the result within a larger one. -/
theorem renderWithin_of_le {depth depth' : Nat} (hle : depth ≤ depth') {v : Value}
    {r : Except Cause String} (h : renderWithin depth v = some r) :
    renderWithin depth' v = some r := by
  match v with
  | .array items =>
    match depth, depth' with
    | 0, _ => contradiction
    | depth + 1, 0 => exact absurd hle (Nat.not_succ_le_zero depth)
    | depth + 1, depth' + 1 =>
      obtain ⟨texts, hitems, rfl⟩ := Option.map_eq_some_iff.mp h
      rw [renderWithin, renderItemsWithin_of_le (Nat.le_of_succ_le_succ hle) hitems]
      rfl
  | .number _ | .boolean _ | .closure _ | .builtin _ | .foreign _ => exact h

/-- Results within a bound are the results within a larger one. -/
theorem renderItemsWithin_of_le {depth depth' : Nat} (hle : depth ≤ depth') {vs : List Value}
    {r : Except Cause (List String)} (h : renderItemsWithin depth vs = some r) :
    renderItemsWithin depth' vs = some r := by
  match vs with
  | [] => exact h
  | v :: vs =>
    rw [renderItemsWithin] at h ⊢
    split at h
    · contradiction
    · rename_i e hv
      rw [renderWithin_of_le hle hv]
      exact h
    · rename_i text hv
      obtain ⟨texts, hvs, rfl⟩ := Option.map_eq_some_iff.mp h
      rw [renderWithin_of_le hle hv]
      simp only [renderItemsWithin_of_le hle hvs, Option.map_some]

end

end Bella.Value
