import Bella.Proofs.Number.RoundTrip
import Bella.Proofs.Value.Comparison

/-!
# Printed texts are unambiguous

A value has a printed text unless a function or a plain value of the host lies in it. The text tells
the value, up to what no program can tell apart: the arrays and their places, the booleans, and the
numbers with the signs of their zeros.

Numbers and booleans are printed as words, in which no bracket and no comma occurs. So the end of a
word is seen from the text, and so is the end of an array, by induction on the arrays inside it:
what follows the text of a value inside a longer text is told from the text of the value itself. A
word is read in one way only, since numbers read back from their texts and the words of the booleans
are not texts of numbers.

## Main definitions

* `Bella.Value.Identical`: values that print alike.
* `Bella.Value.IsWord`, `Bella.Value.IsCut`: texts without brackets and commas, and what follows them.
* `Bella.Value.Spelled`, `Bella.Value.Printed`: the texts of values, by the form of the value.

## Main results

* `Bella.Value.render_fails_iff`: which values have no text.
* `Bella.Value.exists_renderWithin`: a text is found within a bound that is large enough.
* `Bella.Value.Printed.append_inj`: the text of a value can be told from what follows it.
* `Bella.render_unambiguous`: all of it, for any values.
-/

namespace Bella

namespace Value

/-! ### Values without a text -/

/-- Some values have printed texts unless one of them has none. -/
theorem renderItems_fails_iff {items : List Value} :
    (∃ e, renderItems items = .error e) ↔ ∃ v ∈ items, ∃ e, render v = .error e := by
  induction items with
  | nil => exact ⟨nofun, nofun⟩
  | cons v items ih =>
    simp only [List.mem_cons, exists_eq_or_imp, ← ih, renderItems]
    cases render v with
    | error e => simp
    | ok text => cases renderItems items <;> simp [Except.map]

/-- A value has no printed text if and only if a function or a plain value of the host occurs in
it. -/
theorem render_fails_iff {v : Value} :
    (∃ e, render v = .error e) ↔
      ∃ u : Value, u.Occurs v ∧ (u.isFunction = true ∨ ∃ p, u = .foreign p) := by
  induction v using inductionOn with
  | number x =>
    refine ⟨nofun, ?_⟩
    rintro ⟨u, hu, hfails⟩
    cases hu
    obtain ⟨⟨⟩⟩ | ⟨p, ⟨⟩⟩ := hfails
  | boolean b =>
    refine ⟨nofun, ?_⟩
    rintro ⟨u, hu, hfails⟩
    cases hu
    obtain ⟨⟨⟩⟩ | ⟨p, ⟨⟩⟩ := hfails
  | array items ih =>
    have hitems : (∃ e, render (.array items) = .error e) ↔ ∃ e, renderItems items = .error e := by
      rw [render]
      cases renderItems items <;> simp [Except.map]
    rw [hitems, renderItems_fails_iff]
    constructor
    · rintro ⟨v, hv, hfails⟩
      obtain ⟨u, hu, hnone⟩ := (ih v hv).mp hfails
      exact ⟨u, .item hv hu, hnone⟩
    · rintro ⟨u, hu, hnone⟩
      have hkind : u.kind ≠ .array := by
        cases u with
        | array => obtain ⟨⟨⟩⟩ | ⟨p, ⟨⟩⟩ := hnone
        | number | boolean | closure | builtin | foreign => exact nofun
      obtain ⟨v, hv, hu⟩ := (occurs_array_iff hkind).mp hu
      exact ⟨v, hv, (ih v hv).mpr ⟨u, hu, hnone⟩⟩
  | closure c => exact ⟨fun _ => ⟨_, .self, .inl rfl⟩, fun _ => ⟨_, rfl⟩⟩
  | builtin b => exact ⟨fun _ => ⟨_, .self, .inl rfl⟩, fun _ => ⟨_, rfl⟩⟩
  | foreign p => exact ⟨fun _ => ⟨_, .self, .inr ⟨p, rfl⟩⟩, fun _ => ⟨_, rfl⟩⟩

mutual

/-- Within a bound that is large enough the printed text is found, or that there is none. -/
theorem exists_renderWithin (v : Value) :
    ∃ enough, ∀ depth, enough ≤ depth → renderWithin depth v = some (render v) := by
  match v with
  | .array items =>
    obtain ⟨enough, hitems⟩ := exists_renderItemsWithin items
    refine ⟨enough + 1, fun depth hdepth => ?_⟩
    obtain ⟨rest, rfl⟩ := Nat.exists_eq_add_of_le' (Nat.le_of_add_left_le hdepth)
    rw [renderWithin, hitems rest (by omega), render]
    rfl
  | .number _ | .boolean _ | .closure _ | .builtin _ | .foreign _ => exact ⟨0, fun _ _ => rfl⟩

theorem exists_renderItemsWithin (items : List Value) :
    ∃ enough, ∀ depth, enough ≤ depth →
      renderItemsWithin depth items = some (renderItems items) := by
  match items with
  | [] => exact ⟨0, fun _ _ => rfl⟩
  | v :: items =>
    obtain ⟨enough, hv⟩ := exists_renderWithin v
    obtain ⟨enough', hitems⟩ := exists_renderItemsWithin items
    refine ⟨max enough enough', fun depth hdepth => ?_⟩
    obtain ⟨hdepth, hdepth'⟩ := Nat.max_le.mp hdepth
    rw [renderItemsWithin, renderItems, hv depth hdepth, hitems depth hdepth']
    cases render v <;> rfl

end

/-! ### Values that print alike -/

/-- Values of one array structure with the same booleans and numbers in it. Numbers are the same if
their bits are, so that the two zeros differ, or if neither is a number. -/
inductive Identical : Value → Value → Prop
  | number {x y : Float} (h : x.toBits = y.toBits ∨ x.isNaN = true ∧ y.isNaN = true) :
      Identical (.number x) (.number y)
  | boolean (b : Bool) : Identical (.boolean b) (.boolean b)
  | array {vs ws : List Value} (h : List.Forall₂ Identical vs ws) :
      Identical (.array vs) (.array ws)

mutual

/-- Identical values have one text. -/
theorem Identical.render_eq {v w : Value} : Identical v w → render v = render w
  | .number (.inl h) => by rw [Float.toBits_inj.mp h]
  | .number (.inr ⟨hx, hy⟩) => by
    rw [Float.isNaN_eq_decide_eq_nan, decide_eq_true_eq] at hx hy
    rw [hx, hy]
  | .boolean _ => rfl
  | .array h => by rw [render, render, Identical.renderItems_eq h]

theorem Identical.renderItems_eq {vs ws : List Value} :
    List.Forall₂ Identical vs ws → renderItems vs = renderItems ws
  | .nil => rfl
  | .cons h hs => by rw [renderItems, renderItems, h.render_eq, Identical.renderItems_eq hs]

end

/-! ### Words -/

/-- The characters that show where the elements of an array begin and end. -/
def arrayMarks : List Char := ['[', ',', ']']

/-- A text that is not empty and has no mark of arrays in it. -/
structure IsWord (cs : List Char) : Prop where
  ne_nil : cs ≠ []
  not_mem : ∀ c ∈ cs, c ∉ arrayMarks

/-- What may follow a text that is complete: nothing, or a mark of arrays. -/
def IsCut (cs : List Char) : Prop := ∀ c ∈ cs.head?, c ∈ arrayMarks

theorem not_mem_arrayMarks_of_all {cs : List Char}
    (h : cs.all (fun c => !arrayMarks.contains c) = true) : ∀ c ∈ cs, c ∉ arrayMarks := by
  simpa using h

/-- Where a word ends shows from what follows it. -/
theorem IsWord.append_inj {a b r s : List Char} (ha : IsWord a) (hb : IsWord b) (hr : IsCut r)
    (hs : IsCut s) (h : a ++ r = b ++ s) : a = b ∧ r = s := by
  have hsplit {a r : List Char} (ha : IsWord a) (hr : IsCut r) :
      (a ++ r).takeWhile (fun c => decide (c ∉ arrayMarks)) = a := by
    rw [List.takeWhile_append_of_pos fun c hc => decide_eq_true (ha.not_mem c hc)]
    cases r with
    | nil => exact List.append_nil a
    | cons c r =>
      rw [List.takeWhile_cons_of_neg (by simpa using hr c rfl), List.append_nil]
  have hword : a = b := by rw [← hsplit ha hr, h, hsplit hb hs]
  exact ⟨hword, List.append_cancel_left (hword ▸ h)⟩

/-- A word does not begin with a mark of arrays. -/
theorem IsWord.append_ne {a r s : List Char} (ha : IsWord a) {c : Char} (hc : c ∈ arrayMarks) :
    a ++ r ≠ c :: s := by
  intro h
  cases a with
  | nil => exact ha.ne_nil rfl
  | cons b a =>
    cases h
    exact ha.not_mem c List.mem_cons_self hc

theorem not_mem_arrayMarks_of_isDecimalChar {c : Char} (hc : IsDecimalChar c) :
    c ∉ arrayMarks := by
  intro hmark
  obtain rfl | rfl | rfl : c = '[' ∨ c = ',' ∨ c = ']' := by simpa [arrayMarks] using hmark
  all_goals exact absurd hc (by unfold IsDecimalChar; decide)

/-- The words that numbers and booleans are printed as. -/
inductive Spelled : Value → List Char → Prop
  | number (x : Float) : Spelled (.number x) (Number.Layout.printed.write x).toList
  | boolean (b : Bool) : Spelled (.boolean b) (booleanText b).toList

private theorem isWord_write (x : Float) : IsWord (Number.Layout.printed.write x).toList := by
  constructor
  · intro hnil
    have hempty : Number.Layout.printed.write x = "" := String.toList_eq_nil_iff.mp hnil
    have hread := Number.Layout.read?_write Number.Layout.isReadable_printed x
    rw [hempty] at hread
    cases hread
  · unfold Number.Layout.write Number.Layout.chars
    rw [String.toList_ofList]
    obtain hlt | heq | hgt := Nat.lt_trichotomy (Number.rank x) Number.infinityRank
    · obtain ⟨d, hd, -⟩ := Number.Layout.printed.decimal?_magnitudeText hlt
      rw [Number.exact_of_lt hlt]
      intro c hc
      exact not_mem_arrayMarks_of_isDecimalChar
        (Numeral.isDecimalChar_of_mem_signed (Numeral.isDecimalChar_of_decimal? hd) _ c hc)
    · rw [Number.exact_of_eq heq]
      refine not_mem_arrayMarks_of_all ?_
      cases Number.isNegative x <;> rfl
    · rw [Number.exact_of_gt hgt]
      exact not_mem_arrayMarks_of_all rfl

theorem Spelled.isWord {v : Value} {t : List Char} (h : Spelled v t) : IsWord t := by
  cases h with
  | number x => exact isWord_write x
  | boolean b => cases b <;> exact ⟨List.cons_ne_nil _ _, not_mem_arrayMarks_of_all rfl⟩

/-- The words of the booleans do not read as numbers. -/
private theorem write_ne_booleanText (x : Float) (b : Bool) :
    Number.Layout.printed.write x ≠ booleanText b := by
  intro h
  have hread := Number.Layout.read?_write Number.Layout.isReadable_printed x
  rw [h] at hread
  cases b <;> cases hread

/-- A word tells what it is printed for. -/
theorem Spelled.identical {v w : Value} {t u : List Char} (hv : Spelled v t) (hw : Spelled w u)
    (h : t = u) : Identical v w := by
  cases hv with
  | number x =>
    cases hw with
    | number y =>
      obtain rfl := Number.Layout.write_injective Number.Layout.isReadable_printed
        (String.toList_injective h)
      exact .number (.inl rfl)
    | boolean c => exact absurd (String.toList_injective h) (write_ne_booleanText x c)
  | boolean b =>
    cases hw with
    | number y => exact absurd (String.toList_injective h).symm (write_ne_booleanText y b)
    | boolean c =>
      cases b <;> cases c
      all_goals first | exact .boolean _ | exact absurd h (by decide)

/-! ### Texts by the form of the value -/

/-- The texts of further elements of an array, each with a comma before it. -/
def furtherText (texts : List (List Char)) : List Char := texts.flatMap fun t => ',' :: ' ' :: t

theorem furtherText_cons (t : List Char) (ts : List (List Char)) :
    furtherText (t :: ts) = ',' :: ' ' :: (t ++ furtherText ts) := rfl

/-- The texts of the elements of an array, with commas between them. -/
def itemsText : List (List Char) → List Char
  | [] => []
  | t :: ts => t ++ furtherText ts

/-- The texts of values. -/
inductive Printed : Value → List Char → Prop
  | word {v : Value} {t : List Char} (h : Spelled v t) : Printed v t
  | array {items : List Value} {texts : List (List Char)} (h : List.Forall₂ Printed items texts) :
      Printed (.array items) ('[' :: (itemsText texts ++ [']']))

/-- The text of an array, by its characters. -/
theorem toList_arrayText (texts : List String) :
    (arrayText texts).toList = '[' :: (itemsText (texts.map String.toList) ++ [']']) := by
  have hitems (ts : List (List Char)) : [',', ' '].intercalate ts = itemsText ts := by
    induction ts with
    | nil => rfl
    | cons t ts ih =>
      cases ts with
      | nil => simp [itemsText, furtherText]
      | cons u ts =>
        rw [List.intercalate_cons_cons, ih]
        simp [itemsText, furtherText]
  rw [arrayText, Node.commas, String.toList_append, String.toList_append, String.toList_intercalate,
    ← hitems]
  rfl

mutual

/-- The text that a value is printed as. -/
theorem printed_of_render {v : Value} {text : String} (h : render v = .ok text) :
    Printed v text.toList := by
  match v with
  | .number x =>
    cases h
    exact .word (.number x)
  | .boolean b =>
    cases h
    exact .word (.boolean b)
  | .array items =>
    rw [render] at h
    cases hitems : renderItems items with
    | error e =>
      rw [hitems] at h
      cases h
    | ok texts =>
      rw [hitems] at h
      cases h
      rw [toList_arrayText]
      exact .array (printed_of_renderItems hitems)
  | .closure _ | .builtin _ | .foreign _ => cases h

theorem printed_of_renderItems {items : List Value} {texts : List String}
    (h : renderItems items = .ok texts) :
    List.Forall₂ Printed items (texts.map String.toList) := by
  match items with
  | [] =>
    cases h
    exact .nil
  | v :: items =>
    rw [renderItems] at h
    cases hv : render v with
    | error e =>
      rw [hv] at h
      cases h
    | ok text =>
      cases hitems : renderItems items with
      | error e =>
        rw [hv, hitems] at h
        cases h
      | ok texts =>
        rw [hv, hitems] at h
        cases h
        exact .cons (printed_of_render hv) (printed_of_renderItems hitems)

end

/-- No text begins with the end of an array. -/
theorem Printed.append_ne {v : Value} {t : List Char} (h : Printed v t) (r s : List Char) :
    t ++ r ≠ ']' :: s := by
  cases h with
  | word h => exact h.isWord.append_ne (by decide)
  | array => simp

/-- What follows an element of an array is told from the element. -/
theorem isCut_furtherText (ts : List (List Char)) (r : List Char) :
    IsCut (furtherText ts ++ ']' :: r) := by
  intro c hc
  cases ts with
  | nil =>
    cases hc
    decide
  | cons t ts =>
    cases hc
    decide

/-- If two arrays begin alike then both are empty or neither is, so their elements agree with a comma
before the first one, too. -/
theorem Printed.further_eq {vs ws : List Value} {ts us : List (List Char)} {r s : List Char}
    (hvs : List.Forall₂ Printed vs ts) (hws : List.Forall₂ Printed ws us)
    (h : itemsText ts ++ ']' :: r = itemsText us ++ ']' :: s) :
    furtherText ts ++ ']' :: r = furtherText us ++ ']' :: s := by
  cases hvs with
  | nil =>
    cases hws with
    | nil => exact h
    | cons hw hws =>
      rw [itemsText, itemsText, List.append_assoc] at h
      exact absurd h.symm (hw.append_ne _ _)
  | cons hv hvs =>
    cases hws with
    | nil =>
      rw [itemsText, itemsText, List.append_assoc] at h
      exact absurd h (hv.append_ne _ _)
    | cons hw hws => exact congrArg (',' :: ' ' :: ·) h

mutual

/-- The text of a value can be told from what follows it, and it tells the value. -/
theorem Printed.append_inj {v w : Value} {t u r s : List Char} (hv : Printed v t)
    (hw : Printed w u) (hr : IsCut r) (hs : IsCut s) (h : t ++ r = u ++ s) :
    Identical v w ∧ r = s := by
  match hv, hw with
  | .word hv, .word hw =>
    obtain ⟨htext, hrest⟩ := hv.isWord.append_inj hw.isWord hr hs h
    exact ⟨hv.identical hw htext, hrest⟩
  | .word hv, .array _ => exact absurd h (hv.isWord.append_ne (by decide))
  | .array _, .word hw => exact absurd h.symm (hw.isWord.append_ne (by decide))
  | .array hvs, .array hws =>
    rw [List.cons_append, List.cons_append, List.append_assoc, List.append_assoc] at h
    have hfurther := Printed.further_eq hvs hws (List.tail_eq_of_cons_eq h)
    obtain ⟨hitems, hrest⟩ := Printed.further_inj hvs hws hfurther
    exact ⟨.array hitems, hrest⟩

theorem Printed.further_inj {vs ws : List Value} {ts us : List (List Char)} {r s : List Char}
    (hvs : List.Forall₂ Printed vs ts) (hws : List.Forall₂ Printed ws us)
    (h : furtherText ts ++ ']' :: r = furtherText us ++ ']' :: s) :
    List.Forall₂ Identical vs ws ∧ r = s := by
  match hvs, hws with
  | .nil, .nil => exact ⟨.nil, List.tail_eq_of_cons_eq h⟩
  | .nil, .cons _ _ | .cons _ _, .nil => cases h
  | .cons hv hvs, .cons hw hws =>
    simp only [furtherText_cons, List.cons_append, List.append_assoc, List.cons.injEq,
      true_and] at h
    obtain ⟨hitem, hrest⟩ :=
      Printed.append_inj hv hw (isCut_furtherText _ _) (isCut_furtherText _ _) h
    obtain ⟨hitems, hrest⟩ := Printed.further_inj hvs hws hrest
    exact ⟨.cons hitem hitems, hrest⟩

end

end Value

/-- **Printed texts are unambiguous.** A value has no printed text if and only if a function or a
plain value of the host occurs in it, at whatever depth. Two values that have printed texts have one
and the same text if and only if they are identical. Within every bound that is large enough for it,
a value is printed as it is without bound. -/
theorem render_unambiguous (v w : Value) :
    (∃ enough, ∀ depth, enough ≤ depth → v.renderWithin depth = some v.render) ∧
      ((∃ e, v.render = .error e) ↔
        ∃ u : Value, u.Occurs v ∧ (u.isFunction = true ∨ ∃ p, u = .foreign p)) ∧
      ∀ s t, v.render = .ok s → w.render = .ok t → (s = t ↔ v.Identical w) := by
  refine ⟨v.exists_renderWithin, Value.render_fails_iff, fun s t hv hw => ⟨?_, fun h => ?_⟩⟩
  · rintro rfl
    exact ((Value.printed_of_render hv).append_inj (Value.printed_of_render hw) (r := []) (s := [])
      nofun nofun rfl).1
  · rw [h.render_eq, hw] at hv
    exact (Except.ok.inj hv).symm

end Bella
