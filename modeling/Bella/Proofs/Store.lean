import Bella.World

/-!
# Frames and chains of a store

What the operations on frames and stores do to the values of names. A frame is read through
`Frame.get?`, a store through `Store.own?`, the value of a name in one frame alone, and a chain is
known by its links (`Store.Chain`); looking a name up is then a search along the chain.

## Main definitions

* `Bella.Frame.bindAll`: a frame that binds names in order up to the first collision.
* `Bella.firstRepeated`: the first name of a list that stands in it before.
* `Bella.Store.own?`: the value of a name in one frame alone.
* `Bella.Store.Chain`: the links from a frame outward, each one older than the last.
* `Bella.Store.IsOrdered`: every parent is older than its child.

## Main results

* `Bella.Frame.get?_bindAll`, `Bella.Frame.bindAll_snd`: the values of the names that a frame takes
  in, and the first collision.
* `Bella.Store.Chain.chain_eq`, `Bella.Store.IsOrdered.chain`: links determine the chain, and every
  frame has one if parents are older.
* `Bella.Store.lookup?_eq_findSome?`, `Bella.Store.resolve?_eq_find?`: looking up along a chain.
-/

namespace Bella

/-! ### One frame -/

namespace Frame

theorem binds_eq_isSome_get? (f : Frame) (x : String) : f.binds x = (f.get? x).isSome := by
  simp [binds, get?, List.isSome_find?]

theorem get?_bind (f : Frame) (x : String) (v : Value) (y : String) :
    (f.bind x v).get? y = if x = y then some v else f.get? y := by
  by_cases h : x = y <;> simp [get?, bind, h]

theorem get?_update (f : Frame) (x : String) (v : Value) (y : String) :
    (f.update x v).get? y = if x = y then (f.get? y).map fun _ => v else f.get? y := by
  obtain ⟨parent, label, options, bindings⟩ := f
  simp only [get?, update]
  induction bindings with
  | nil => simp
  | cons b bs ih =>
    by_cases hb : b.1 = x
    · by_cases hxy : x = y
      · simp [hb, hxy]
      · simpa [hb, hxy] using ih
    · by_cases hby : b.1 = y
      · subst hby
        have hxb : ¬ x = b.1 := fun h => hb h.symm
        simp [hb, hxb]
      · simpa [hb, hby] using ih

/-- The frame after binding names in order up to the first one that it binds already, together with
that name if there is one. -/
def bindAll (f : Frame) : List (String × Value) → Frame × Option String
  | [] => (f, none)
  | (x, v) :: bs => if f.binds x then (f, some x) else (f.bind x v).bindAll bs

@[simp] theorem bindAll_nil (f : Frame) : f.bindAll [] = (f, none) := rfl

theorem bindAll_cons (f : Frame) (x : String) (v : Value) (bs : List (String × Value)) :
    f.bindAll ((x, v) :: bs) = if f.binds x then (f, some x) else (f.bind x v).bindAll bs := rfl

/-- Binding names changes nothing of a frame but its bindings. -/
theorem bindAll_shape (f : Frame) (bs : List (String × Value)) :
    (f.bindAll bs).1.parent = f.parent ∧ (f.bindAll bs).1.label = f.label ∧
      (f.bindAll bs).1.options = f.options := by
  induction bs generalizing f with
  | nil => exact ⟨rfl, rfl, rfl⟩
  | cons b bs ih =>
    rw [bindAll_cons]
    split
    · exact ⟨rfl, rfl, rfl⟩
    · exact ih (f.bind b.1 b.2)

/-- What a frame binds already cannot be among the names that it takes in without collision. -/
theorem lookup_eq_none_of_bindAll {f : Frame} {bs : List (String × Value)}
    (h : (f.bindAll bs).2 = none) {x : String} (hx : f.binds x) : bs.lookup x = none := by
  induction bs generalizing f with
  | nil => rfl
  | cons b bs ih =>
    obtain ⟨y, v⟩ := b
    rw [bindAll_cons] at h
    split at h
    · cases h
    · rename_i hy
      have hne : x ≠ y := fun e => hy (e ▸ hx)
      have hbinds : (f.bind y v).binds x := by
        rw [binds_eq_isSome_get?, get?_bind, if_neg fun e => hne e.symm, ← binds_eq_isSome_get?]
        exact hx
      have hbeq : (x == y) = false := beq_eq_false_iff_ne.mpr hne
      rw [List.lookup_cons, hbeq]
      exact ih h hbinds

/-- A frame that takes in names without collision has their values, and keeps those it had. -/
theorem get?_bindAll {f : Frame} {bs : List (String × Value)} (h : (f.bindAll bs).2 = none)
    (x : String) : (f.bindAll bs).1.get? x = (bs.lookup x).or (f.get? x) := by
  induction bs generalizing f with
  | nil => rfl
  | cons b bs ih =>
    obtain ⟨y, v⟩ := b
    rw [bindAll_cons] at h ⊢
    split at h
    · cases h
    · rename_i hy
      rw [if_neg hy, ih h, get?_bind, List.lookup_cons]
      by_cases hxy : x = y
      · subst hxy
        have hbinds : (f.bind x v).binds x := by simp [binds_eq_isSome_get?, get?_bind]
        simp [lookup_eq_none_of_bindAll h hbinds]
      · have hbeq : (x == y) = false := beq_eq_false_iff_ne.mpr hxy
        rw [hbeq, if_neg fun e => hxy e.symm]

end Frame

/-- The first name in a list that was seen before or stands earlier in the list. -/
def firstRepeated (seen : List String) : List String → Option String
  | [] => none
  | x :: xs => if x ∈ seen then some x else firstRepeated (x :: seen) xs

/-- Renaming without confusion keeps repetitions. -/
theorem firstRepeated_map {g : String → String} {P : String → Prop}
    (hg : ∀ x y, P x → P y → g x = g y → x = y) (seen : List String) {xs : List String}
    (hseen : ∀ x ∈ seen, P x) (hxs : ∀ x ∈ xs, P x) :
    firstRepeated (seen.map g) (xs.map g) = (firstRepeated seen xs).map g := by
  induction xs generalizing seen with
  | nil => rfl
  | cons x xs ih =>
    have hx : P x := hxs x List.mem_cons_self
    have hmem : g x ∈ seen.map g ↔ x ∈ seen := by
      refine ⟨fun h => ?_, List.mem_map_of_mem⟩
      obtain ⟨y, hy, hyx⟩ := List.mem_map.mp h
      exact hg y x (hseen y hy) hx hyx ▸ hy
    simp only [List.map_cons, firstRepeated, hmem]
    split
    · rfl
    · refine ih (x :: seen) (fun y hy => ?_) fun y hy => hxs y (List.mem_cons_of_mem x hy)
      obtain rfl | hy := List.mem_cons.mp hy
      · exact hx
      · exact hseen y hy

/-- A frame collides with the first name that it binds already or that is repeated. -/
theorem Frame.bindAll_snd {f : Frame} {seen : List String}
    (hseen : ∀ x, f.binds x = true ↔ x ∈ seen)
    (bs : List (String × Value)) : (f.bindAll bs).2 = firstRepeated seen (bs.map Prod.fst) := by
  induction bs generalizing f seen with
  | nil => rfl
  | cons b bs ih =>
    obtain ⟨y, v⟩ := b
    rw [bindAll_cons, List.map_cons, firstRepeated]
    by_cases hy : y ∈ seen
    · rw [if_pos ((hseen y).mpr hy), if_pos hy]
    · rw [if_neg fun h => hy ((hseen y).mp h), if_neg hy]
      refine ih fun x => ?_
      rw [binds_eq_isSome_get?, get?_bind, List.mem_cons, ← hseen x, binds_eq_isSome_get?]
      by_cases hxy : y = x
      · simp [hxy]
      · have hxy' : ¬ x = y := fun e => hxy e.symm
        simp [hxy, hxy']

/-- A collision is with one of the names that were to be bound. -/
theorem Frame.mem_of_bindAll {f : Frame} {bs : List (String × Value)} {x : String}
    (h : (f.bindAll bs).2 = some x) : x ∈ bs.map Prod.fst := by
  induction bs generalizing f with
  | nil => cases h
  | cons b bs ih =>
    rw [bindAll_cons] at h
    split at h
    · cases h
      exact List.mem_cons_self
    · exact List.mem_cons_of_mem _ (ih h)

theorem firstRepeated_eq_none_of_subset {seen seen' xs : List String} (hseen : seen' ⊆ seen)
    (h : firstRepeated seen xs = none) : firstRepeated seen' xs = none := by
  induction xs generalizing seen seen' with
  | nil => rfl
  | cons x xs ih =>
    rw [firstRepeated] at h ⊢
    split at h
    · cases h
    · rename_i hx
      rw [if_neg fun hmem => hx (hseen hmem)]
      exact ih (List.cons_subset_cons x hseen) h

/-- A list without repetition has no name twice, and none that was seen before. -/
theorem nodup_of_firstRepeated {seen xs : List String} (h : firstRepeated seen xs = none) :
    xs.Nodup ∧ ∀ x ∈ xs, x ∉ seen := by
  induction xs generalizing seen with
  | nil => exact ⟨List.nodup_nil, nofun⟩
  | cons x xs ih =>
    rw [firstRepeated] at h
    split at h
    · cases h
    · rename_i hx
      obtain ⟨hnodup, hseen⟩ := ih h
      refine ⟨List.nodup_cons.mpr ⟨fun hmem => hseen x hmem List.mem_cons_self, hnodup⟩,
        List.forall_mem_cons.mpr ⟨hx, fun y hy hmem => ?_⟩⟩
      exact hseen y hy (List.mem_cons_of_mem x hmem)

/-- A frame keeps the names that it binds while it takes in others, also if it collides. -/
theorem Frame.binds_bindAll {f : Frame} {x : String} (hx : f.binds x) (bs : List (String × Value)) :
    (f.bindAll bs).1.binds x := by
  induction bs generalizing f with
  | nil => exact hx
  | cons b bs ih =>
    rw [bindAll_cons]
    split
    · exact hx
    · refine ih ?_
      rw [binds_eq_isSome_get?, get?_bind]
      split
      · rfl
      · rw [← binds_eq_isSome_get?]
        exact hx

/-- Names that a frame takes in without collision are different from one another. -/
theorem Frame.firstRepeated_of_bindAll {f : Frame} {bs : List (String × Value)}
    (h : (f.bindAll bs).2 = none) : firstRepeated [] (bs.map Prod.fst) = none := by
  have hseen (x : String) : f.binds x = true ↔ x ∈ f.bindings.map Prod.fst := by
    simp [Frame.binds]
  rw [Frame.bindAll_snd hseen] at h
  exact firstRepeated_eq_none_of_subset (List.nil_subset _) h

/-- Whatever a frame binds after taking in names, it had before or took in, also if it collided. -/
theorem Frame.mem_of_get?_bindAll {f : Frame} {bs : List (String × Value)} {x : String} {v : Value}
    (h : (f.bindAll bs).1.get? x = some v) : f.get? x = some v ∨ (x, v) ∈ bs := by
  induction bs generalizing f with
  | nil => exact .inl h
  | cons b bs ih =>
    obtain ⟨y, u⟩ := b
    rw [bindAll_cons] at h
    split at h
    · exact .inl h
    · obtain hbind | hmem := ih h
      · rw [get?_bind] at hbind
        split at hbind
        · rename_i hyx
          cases hbind
          exact .inr (hyx ▸ List.mem_cons_self)
        · exact .inl hbind
      · exact .inr (List.mem_cons_of_mem _ hmem)

/-! ### Parameters and arguments -/

section Parameters

variable {ps : List String} {vs : List Value} {x : String}

/-- Every parameter has an argument if there are enough of them. -/
theorem isSome_lookup_zip (hlength : vs.length = ps.length) (hx : x ∈ ps) :
    ((ps.zip vs).lookup x).isSome = true := by
  rw [← List.map_fst_zip (Nat.le_of_eq hlength.symm)] at hx
  obtain ⟨b, hb, rfl⟩ := List.mem_map.mp hx
  exact List.lookup_isSome_iff.mpr ⟨b, hb, beq_self_eq_true b.1⟩

/-- A name that is not bound has no value. -/
theorem lookup_eq_none_of_not_mem {bs : List (String × Value)} (hx : x ∉ bs.map Prod.fst) :
    bs.lookup x = none := by
  refine List.lookup_eq_none_iff.mpr fun b hb => bne_iff_ne.mpr fun h => hx ?_
  exact h ▸ List.mem_map_of_mem hb

/-- Other names than parameters have no argument. -/
theorem lookup_zip_eq_none (hx : x ∉ ps) : (ps.zip vs).lookup x = none := by
  refine lookup_eq_none_of_not_mem fun h => hx ?_
  obtain ⟨b, hb, rfl⟩ := List.mem_map.mp h
  exact (List.of_mem_zip hb).1

end Parameters

/-! ### Reading a store -/

namespace Store

@[ext] theorem ext {s t : Store} (h : s.frames = t.frames) : s = t := by
  cases s
  cases t
  exact congrArg Store.mk h

/-- The value of a name in one frame alone. -/
def own? (s : Store) (i : FrameId) (x : String) : Option Value := (s.get? i).bind (·.get? x)

theorem own?_of_get? {s : Store} {i : FrameId} {F : Frame} (h : s.get? i = some F) (x : String) :
    s.own? i x = F.get? x := by
  simp [own?, h]

theorem binds_eq_isSome_own? (s : Store) (i : FrameId) (x : String) :
    s.binds i x = (s.own? i x).isSome := by
  cases h : s.get? i with
  | none => simp [binds, own?, h]
  | some F => simp [binds, own?, h, F.binds_eq_isSome_get?]

theorem options_of_get? {s : Store} {i : FrameId} {F : Frame} {o : Options}
    (h : s.get? i = some F) (ho : F.options = some o) : s.options i = o := by
  simp [options, options?, h, ho]

theorem lt_next_of_get? {s : Store} {i : FrameId} {F : Frame} (h : s.get? i = some F) :
    i < s.next := by
  obtain ⟨hlt, -⟩ := Array.getElem?_eq_some_iff.mp h
  exact hlt

/-! ### Operations on a store -/

/-- The store with one more frame. -/
def append (s : Store) (F : Frame) : Store := { frames := s.frames.push F }

/-- The store with another frame at an address. -/
def replace (s : Store) (i : FrameId) (F : Frame) : Store :=
  { frames := s.frames.modify i fun _ => F }

theorem get?_append (s : Store) (F : Frame) (i : FrameId) :
    (s.append F).get? i = if i = s.next then some F else s.get? i :=
  Array.getElem?_push

theorem get?_append_of_get? {s : Store} {i : FrameId} {G : Frame} (h : s.get? i = some G)
    (F : Frame) : (s.append F).get? i = some G := by
  have hne : i ≠ s.next := Nat.ne_of_lt (lt_next_of_get? h)
  rw [get?_append, if_neg hne, h]

theorem next_append (s : Store) (F : Frame) : (s.append F).next = s.next + 1 := by
  simp [next, append]

theorem get?_replace (s : Store) (i : FrameId) (F : Frame) (j : FrameId) :
    (s.replace i F).get? j = if i = j then (s.get? j).map fun _ => F else s.get? j := by
  simp [get?, replace, Array.getElem?_modify]

theorem get?_bind (s : Store) (i : FrameId) (x : String) (v : Value) (j : FrameId) :
    (s.bind i x v).get? j = if i = j then (s.get? j).map (·.bind x v) else s.get? j :=
  Array.getElem?_modify

theorem get?_update (s : Store) (i : FrameId) (x : String) (v : Value) (j : FrameId) :
    (s.update i x v).get? j = if i = j then (s.get? j).map (·.update x v) else s.get? j :=
  Array.getElem?_modify

theorem get?_setOptions (s : Store) (i : FrameId) (o : Options) (j : FrameId) :
    (s.setOptions i o).get? j =
      if i = j then (s.get? j).map ({ · with options := some o }) else s.get? j :=
  Array.getElem?_modify

/-- What holds of some frames holds of them after one more frame that it holds of. -/
theorem forall_get?_append {s : Store} {among : FrameId → Prop} {P : Frame → Prop}
    (h : ∀ {i F}, among i → s.get? i = some F → P F) {G : Frame} (hG : P G) {i : FrameId}
    {F : Frame} (hi : among i) (hget : (s.append G).get? i = some F) : P F := by
  rw [get?_append] at hget
  split at hget
  · cases hget
    exact hG
  · exact h hi hget

/-- What holds of some frames holds of them after a change to one frame that keeps it. -/
theorem forall_get?_of_change {s t : Store} {among : FrameId → Prop} {P : Frame → Prop}
    (h : ∀ {i F}, among i → s.get? i = some F → P F) {j : FrameId} {change : Frame → Frame}
    (ht : ∀ i, t.get? i = if j = i then (s.get? i).map change else s.get? i)
    (hchange : ∀ {F}, P F → P (change F)) {i : FrameId} {F : Frame} (hi : among i)
    (hget : t.get? i = some F) : P F := by
  rw [ht] at hget
  split at hget
  · obtain ⟨G, hG, rfl⟩ := Option.map_eq_some_iff.mp hget
    exact hchange (h hi hG)
  · exact h hi hget

theorem next_bind (s : Store) (i : FrameId) (x : String) (v : Value) :
    (s.bind i x v).next = s.next := by
  simp [next, bind]

theorem next_update (s : Store) (i : FrameId) (x : String) (v : Value) :
    (s.update i x v).next = s.next := by
  simp [next, update]

theorem next_setOptions (s : Store) (i : FrameId) (o : Options) :
    (s.setOptions i o).next = s.next := by
  simp [next, setOptions]

theorem replace_replace (s : Store) (i : FrameId) (F G : Frame) :
    (s.replace i F).replace i G = s.replace i G := by
  ext1
  apply Array.ext_getElem?
  intro j
  by_cases h : i = j <;> simp [replace, Array.getElem?_modify, h, Function.comp_def]

theorem replace_self {s : Store} {i : FrameId} {F : Frame} (h : s.get? i = some F) :
    s.replace i F = s := by
  ext1
  apply Array.ext_getElem?
  intro j
  by_cases hij : i = j
  · subst hij
    have h' : s.frames[i]? = some F := h
    simp [replace, Array.getElem?_modify, h']
  · simp [replace, Array.getElem?_modify, hij]

theorem append_replace_next (s : Store) (F G : Frame) :
    (s.append F).replace s.next G = s.append G := by
  ext1
  apply Array.ext_getElem?
  intro j
  simp only [replace, append, next, Array.getElem?_modify, Array.getElem?_push]
  by_cases h : j = s.frames.size
  · simp [h]
  · have h' : ¬ s.frames.size = j := fun e => h e.symm
    simp [h, h']

theorem bind_eq_replace {s : Store} {i : FrameId} {F : Frame} (h : s.get? i = some F) (x : String)
    (v : Value) : s.bind i x v = s.replace i (F.bind x v) := by
  ext1
  apply Array.ext_getElem?
  intro j
  by_cases hij : i = j
  · subst hij
    have h' : s.frames[i]? = some F := h
    simp [bind, replace, Array.getElem?_modify, h']
  · simp [bind, replace, Array.getElem?_modify, hij]

theorem own?_bind {s : Store} {i : FrameId} {F : Frame} (h : s.get? i = some F) (x : String)
    (v : Value) (j : FrameId) (y : String) :
    (s.bind i x v).own? j y = if i = j ∧ x = y then some v else s.own? j y := by
  rw [bind_eq_replace h]
  simp only [own?, get?_replace]
  by_cases hij : i = j
  · subst hij
    simp [h, Frame.get?_bind]
  · simp [hij]

theorem own?_update (s : Store) (i : FrameId) (x : String) (v : Value) (j : FrameId) (y : String) :
    (s.update i x v).own? j y =
      if i = j ∧ x = y then (s.own? j y).map fun _ => v else s.own? j y := by
  simp only [own?, get?_update]
  by_cases hij : i = j
  · subst hij
    cases h : s.get? i with
    | none => simp
    | some F => simp [Frame.get?_update]
  · simp [hij]

/-! ### Chains -/

/-- The links from a frame outward, up to a frame without parent. Each parent is older. -/
inductive Chain (s : Store) : FrameId → List FrameId → Prop
  | last {i : FrameId} {F : Frame} (hget : s.get? i = some F) (hparent : F.parent = none) :
      Chain s i [i]
  | link {i p : FrameId} {F : Frame} {ids : List FrameId} (hget : s.get? i = some F)
      (hparent : F.parent = some p) (holder : p < i) (hrest : Chain s p ids) : Chain s i (i :: ids)

theorem Chain.chainUpTo_eq {s : Store} {i : FrameId} {ids : List FrameId} (h : s.Chain i ids) :
    ∀ fuel, i < fuel → s.chainUpTo fuel i = ids := by
  induction h with
  | last hget hparent =>
    intro fuel hfuel
    cases fuel with
    | zero => exact absurd hfuel (Nat.not_lt_zero _)
    | succ fuel => simp [chainUpTo, hget, hparent]
  | link hget hparent holder _ ih =>
    intro fuel hfuel
    cases fuel with
    | zero => exact absurd hfuel (Nat.not_lt_zero _)
    | succ fuel =>
      have hrest := ih fuel (Nat.lt_of_lt_of_le holder (Nat.le_of_lt_succ hfuel))
      simp [chainUpTo, hget, hparent, hrest]

/-- Links determine the chain. -/
theorem Chain.chain_eq {s : Store} {i : FrameId} {ids : List FrameId} (h : s.Chain i ids) :
    s.chain i = ids :=
  h.chainUpTo_eq (i + 1) (Nat.lt_succ_self i)

/-- The frames on a chain are there. -/
theorem Chain.exists_get? {s : Store} {i j : FrameId} {ids : List FrameId} (h : s.Chain i ids)
    (hj : j ∈ ids) : ∃ F, s.get? j = some F := by
  induction h with
  | last hget _ =>
    rw [List.mem_singleton.mp hj]
    exact ⟨_, hget⟩
  | link hget _ _ _ ih =>
    obtain rfl | hj := List.mem_cons.mp hj
    · exact ⟨_, hget⟩
    · exact ih hj

/-- No frame on a chain is newer than its first one. -/
theorem Chain.le_of_mem {s : Store} {i j : FrameId} {ids : List FrameId} (h : s.Chain i ids)
    (hj : j ∈ ids) : j ≤ i := by
  induction h with
  | last _ _ => exact Nat.le_of_eq (List.mem_singleton.mp hj)
  | link _ _ holder _ ih =>
    obtain rfl | hj := List.mem_cons.mp hj
    · exact Nat.le_refl _
    · exact Nat.le_trans (ih hj) (Nat.le_of_lt holder)

theorem Chain.nodup {s : Store} {i : FrameId} {ids : List FrameId} (h : s.Chain i ids) :
    ids.Nodup := by
  induction h with
  | last _ _ => simp
  | link _ _ holder hrest ih =>
    refine List.nodup_cons.mpr ⟨fun hmem => ?_, ih⟩
    exact absurd holder (Nat.not_lt.mpr (hrest.le_of_mem hmem))

/-- A frame is the first one on its chain. -/
theorem Chain.eq_cons {s : Store} {i : FrameId} {ids : List FrameId} (h : s.Chain i ids) :
    ∃ rest, ids = i :: rest := by
  cases h <;> exact ⟨_, rfl⟩

/-- Nothing stands before a frame on its chain. -/
theorem Chain.before_eq_nil {s : Store} {i : FrameId} {before after : List FrameId}
    (h : s.Chain i (before ++ i :: after)) : before = [] := by
  obtain ⟨rest, hrest⟩ := h.eq_cons
  have hnodup := h.nodup
  cases before with
  | nil => rfl
  | cons j before =>
    obtain rfl : j = i := (List.cons.inj hrest).1
    exact absurd (by simp) (List.nodup_cons.mp hnodup).1

/-- A chain stays a chain if its frames are there still and keep their parents. -/
theorem Chain.kept {s t : Store} {i : FrameId} {ids : List FrameId} (h : s.Chain i ids)
    (hkept : ∀ {j F}, s.get? j = some F → ∃ G, t.get? j = some G ∧ G.parent = F.parent) :
    t.Chain i ids := by
  induction h with
  | last hget hparent =>
    obtain ⟨G, hG, hsame⟩ := hkept hget
    exact .last hG (hsame.trans hparent)
  | link hget hparent holder _ ih =>
    obtain ⟨G, hG, hsame⟩ := hkept hget
    exact .link hG (hsame.trans hparent) holder ih

/-- Every parent is older than its child. -/
def IsOrdered (s : Store) : Prop :=
  ∀ {i F p}, s.get? i = some F → F.parent = some p → p < i

/-- It is enough to look at each frame. -/
theorem IsOrdered.of_frames {s : Store}
    (h : ∀ b ∈ s.frames.toList.zipIdx, ∀ p ∈ b.1.parent, p < b.2) : s.IsOrdered := by
  intro i F p hget hp
  have hF : s.frames.toList[i]? = some F := by
    rw [Array.getElem?_toList]
    exact hget
  exact h (F, i) (List.mem_zipIdx_iff_getElem?.mpr hF) p hp

/-- If parents are older, every frame has its chain. -/
theorem IsOrdered.chain {s : Store} (h : s.IsOrdered) {i : FrameId} (hi : i < s.next) :
    s.Chain i (s.chain i) := by
  have hexists : ∃ ids, s.Chain i ids := by
    induction i using Nat.strongRecOn with
    | ind i ih =>
      have hget : s.get? i = some (s.frames[i]) := Array.getElem?_eq_getElem hi
      cases hparent : (s.frames[i]).parent with
      | none => exact ⟨_, .last hget hparent⟩
      | some p =>
        have holder : p < i := h hget hparent
        obtain ⟨ids, hids⟩ := ih p holder (Nat.lt_trans holder hi)
        exact ⟨_, .link hget hparent holder hids⟩
  obtain ⟨ids, hids⟩ := hexists
  rw [hids.chain_eq]
  exact hids

/-- What holds of a frame and, with each frame, of its parent, holds along the chain. -/
theorem forall_mem_chain {s : Store} {P : FrameId → Prop}
    (hparent : ∀ {i F p}, P i → s.get? i = some F → F.parent = some p → P p) {f : FrameId}
    (hf : P f) : ∀ i ∈ s.chain f, P i := by
  unfold chain
  generalize f + 1 = fuel
  induction fuel generalizing f with
  | zero => exact nofun
  | succ fuel ih =>
    intro i hi
    rw [chainUpTo] at hi
    cases hget : s.get? f with
    | none => simp [hget] at hi
    | some F =>
      simp only [hget] at hi
      obtain rfl | hi := List.mem_cons.mp hi
      · exact hf
      · cases hF : F.parent with
        | none => simp [hF] at hi
        | some p =>
          simp only [hF] at hi
          exact ih (hparent hf hget hF) i hi

/-- The outermost frame of a chain is on the chain, if there is one. -/
theorem root_eq_or_mem_chain (s : Store) (f : FrameId) : s.root f = f ∨ s.root f ∈ s.chain f := by
  unfold root
  cases hlast : (s.chain f).getLast? with
  | none => exact .inl rfl
  | some i => exact .inr (List.mem_of_getLast? hlast)

/-- A frame that has a chain has its outermost frame on it. -/
theorem Chain.root_mem {s : Store} {i : FrameId} {ids : List FrameId} (h : s.Chain i ids) :
    s.root i ∈ ids := by
  obtain hself | hmem := s.root_eq_or_mem_chain i
  · obtain ⟨rest, rfl⟩ := h.eq_cons
    rw [hself]
    exact List.mem_cons_self
  · exact h.chain_eq ▸ hmem

/-- A frame has the outermost frame of its parent. -/
theorem Chain.root_eq {s : Store} {i p : FrameId} {F : Frame} {ids : List FrameId}
    (hget : s.get? i = some F) (hparent : F.parent = some p) (holder : p < i)
    (hrest : s.Chain p ids) : s.root i = s.root p := by
  unfold root
  rw [(Chain.link hget hparent holder hrest).chain_eq, hrest.chain_eq]
  obtain ⟨rest, rfl⟩ := hrest.eq_cons
  rw [List.getLast?_cons_cons, List.getLast?_eq_some_getLast (List.cons_ne_nil p rest)]
  rfl

/-- A name that has a value has it from a frame on the chain. -/
theorem exists_of_lookup? {s : Store} {f : FrameId} {x : String} {v : Value}
    (h : s.lookup? f x = some v) : ∃ i F, i ∈ s.chain f ∧ s.get? i = some F ∧ F.get? x = some v := by
  obtain ⟨i, hi, hv⟩ := Option.bind_eq_some_iff.mp h
  obtain ⟨F, hget, hv⟩ := Option.bind_eq_some_iff.mp hv
  exact ⟨i, F, List.mem_of_find?_eq_some hi, hget, hv⟩

/-- A name is looked up frame by frame along the chain. -/
theorem lookup?_eq_findSome? (s : Store) (i : FrameId) (x : String) :
    s.lookup? i x = (s.chain i).findSome? fun j => s.own? j x := by
  unfold lookup? resolve?
  induction s.chain i with
  | nil => rfl
  | cons j ids ih =>
    rw [List.find?_cons, List.findSome?_cons, binds_eq_isSome_own?]
    cases h : s.own? j x with
    | none => simpa using ih
    | some v => exact h

/-- A name means what it means to the frame itself, else to its parent. -/
theorem Chain.lookup?_eq {s : Store} {i p : FrameId} {F : Frame} {ids : List FrameId}
    (hget : s.get? i = some F) (hparent : F.parent = some p) (holder : p < i)
    (hrest : s.Chain p ids) (x : String) : s.lookup? i x = (F.get? x).or (s.lookup? p x) := by
  rw [lookup?_eq_findSome?, lookup?_eq_findSome?,
    (Chain.link hget hparent holder hrest).chain_eq, hrest.chain_eq, List.findSome?_cons,
    own?_of_get? hget]
  cases F.get? x <;> rfl

/-- A name resolves to the first frame on the chain that has a value for it. -/
theorem resolve?_eq_find? (s : Store) (i : FrameId) (x : String) :
    s.resolve? i x = (s.chain i).find? fun j => (s.own? j x).isSome := by
  simp only [resolve?, binds_eq_isSome_own?]

end Store
end Bella
