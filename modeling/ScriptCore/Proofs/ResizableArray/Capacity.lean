import ScriptCore.Proofs.ResizableArray.Sequence

/-!
# How many slots an array keeps

The capacity doubles when an element comes to a full array and is halved when a removal leaves less
than half of the slots in use.  What holds after any operations in any order is `Dense`: the
capacity is a power of two, and half of the slots are in use, unless there is but one.

An addition keeps this because a store that was full is half full once it is doubled.  A removal
keeps it because it is the first one to leave less than half of the slots in use: the half that is
left is full but for one slot.  So one halving is enough, and an array without elements has but one
slot (`capacity_transcript`).
-/

namespace ScriptCore.ResizableArray

variable {α : Type} {a : ResizableArray α}

/-- There are no more slots than the number of elements calls for. -/
structure Dense (a : ResizableArray α) : Prop where
  isPowerOfTwo : a.capacity.isPowerOfTwo
  half_le : a.capacity = 1 ∨ a.capacity / 2 ≤ a.count

/-- The operations that take an element out. -/
def Operation.IsRemoval : Operation α → Prop
  | removeAt _ => True
  | pop => True
  | _ => False

theorem dense_empty : Dense (empty : ResizableArray α) :=
  ⟨Nat.isPowerOfTwo_one, .inl rfl⟩

/-- More elements in as many slots. -/
theorem Dense.of_count_le (ha : a.Dense) {b : ResizableArray α}
    (hcapacity : b.capacity = a.capacity) (hcount : a.count ≤ b.count) : b.Dense where
  isPowerOfTwo := hcapacity ▸ ha.isPowerOfTwo
  half_le := by
    rw [hcapacity]
    exact ha.half_le.imp_right fun hhalf => Nat.le_trans hhalf hcount

/-- Without elements, half of the capacity is nothing. -/
theorem Dense.capacity_eq_one (ha : a.Dense) (hempty : a.count = 0) : a.capacity = 1 := by
  have hpos := Nat.pos_of_isPowerOfTwo ha.isPowerOfTwo
  have hhalf := ha.half_le
  omega

/-- Where less than half of the slots being in use is excluded, no slots are given up. -/
theorem Dense.shrinkIfSparse_eq (ha : a.Dense) : a.shrinkIfSparse = a := by
  have hhalf := ha.half_le
  rw [shrinkIfSparse, if_neg (by omega)]

/-! ## Growing and shrinking -/

/-- A power of two is one or has a half that is a power of two. -/
theorem isPowerOfTwo_cases {capacity : ℕ} (hpower : capacity.isPowerOfTwo) :
    capacity = 1 ∨ ∃ half : ℕ, half.isPowerOfTwo ∧ capacity = half * 2 := by
  obtain ⟨doublings, rfl⟩ := hpower
  cases doublings with
  | zero => exact .inl rfl
  | succ doublings => exact .inr ⟨2 ^ doublings, ⟨doublings, rfl⟩, Nat.pow_succ ..⟩

theorem capacity_shrinkIfSparse (a : ResizableArray α) :
    a.shrinkIfSparse.capacity =
      if 1 < a.capacity ∧ a.count < a.capacity / 2 then a.capacity / 2 else a.capacity := by
  unfold shrinkIfSparse
  split
  · simp only [resize]
    omega
  · rfl

theorem count_shrinkIfSparse (a : ResizableArray α) : a.shrinkIfSparse.count = a.count := by
  unfold shrinkIfSparse
  split <;> rfl

/-- A store that was full is half full once it is doubled. -/
theorem Dense.growIfFull (ha : a.Dense) : a.growIfFull.Dense := by
  unfold ResizableArray.growIfFull
  split
  · rename_i hfull
    have hpos := Nat.pos_of_isPowerOfTwo ha.isPowerOfTwo
    have hcapacity : (a.resize (a.capacity * 2)).capacity = a.capacity * 2 := by
      simp only [resize]
      omega
    refine ⟨?_, .inr ?_⟩
    · rw [hcapacity]
      exact Nat.isPowerOfTwo_mul_two_of_isPowerOfTwo ha.isPowerOfTwo
    · rw [hcapacity, Nat.mul_div_cancel _ Nat.two_pos]
      exact Nat.le_of_eq hfull.symm
  · exact ha

/-- One halving makes up for one element less. -/
theorem dense_shrinkIfSparse (hpower : a.capacity.isPowerOfTwo)
    (hhalf : a.capacity = 1 ∨ a.capacity / 2 ≤ a.count + 1) : a.shrinkIfSparse.Dense := by
  by_cases hsparse : 1 < a.capacity ∧ a.count < a.capacity / 2
  · obtain hone | ⟨half, hhalfPower, htwice⟩ := isPowerOfTwo_cases hpower
    · omega
    have hcapacity : a.shrinkIfSparse.capacity = half := by
      rw [capacity_shrinkIfSparse, if_pos hsparse]
      omega
    refine ⟨hcapacity ▸ hhalfPower, ?_⟩
    rw [hcapacity, count_shrinkIfSparse]
    -- Of the slots that are left all but one are in use.
    omega
  · have hcapacity : a.shrinkIfSparse.capacity = a.capacity := by
      rw [capacity_shrinkIfSparse, if_neg hsparse]
    refine ⟨hcapacity ▸ hpower, ?_⟩
    rw [hcapacity, count_shrinkIfSparse]
    omega

/-! ## What one operation does -/

theorem Dense.append (ha : a.Dense) (value : α) : (a.append value).Dense :=
  ha.growIfFull.of_count_le rfl (Nat.le_succ _)

theorem Dense.insert (ha : a.Dense) (index : Int) (value : α) : (a.insert index value).2.Dense := by
  unfold ResizableArray.insert
  split
  · exact ha
  · exact ha.growIfFull.of_count_le rfl (Nat.le_succ _)

/-- What is left by a removal is the array as it was, or one with an element less after at most one
halving. -/
theorem perform_removal_cases {operation : Operation α} (hremoval : operation.IsRemoval) :
    (operation.perform a).2 = a ∨
    ∃ rest : ResizableArray α, (operation.perform a).2 = rest.shrinkIfSparse ∧
      rest.capacity = a.capacity ∧ rest.count + 1 = a.count := by
  cases operation with
  | removeAt index =>
      -- A removal fails, or it takes one element away and then looks whether to shrink.
      simp only [Operation.perform, ResizableArray.removeAt]
      split
      · exact .inl rfl
      · split
        · exact .inl rfl
        · refine .inr ⟨_, rfl, rfl, ?_⟩
          change a.count - 1 + 1 = a.count
          omega
  | pop =>
      simp only [Operation.perform, ResizableArray.pop]
      split
      · exact .inl rfl
      · refine .inr ⟨_, rfl, rfl, ?_⟩
        change a.count - 1 + 1 = a.count
        omega
  | _ => exact hremoval.elim

theorem Dense.perform_removal (ha : a.Dense) {operation : Operation α}
    (hremoval : operation.IsRemoval) : (operation.perform a).2.Dense := by
  obtain hsame | ⟨rest, hrest, hcapacity, hcount⟩ := perform_removal_cases (a := a) hremoval
  · rwa [hsame]
  · rw [hrest]
    refine dense_shrinkIfSparse (hcapacity ▸ ha.isPowerOfTwo) ?_
    rw [hcapacity, hcount]
    exact ha.half_le

/-- A removal halves the capacity at most once. -/
theorem capacity_perform_removal {operation : Operation α} (hremoval : operation.IsRemoval) :
    (operation.perform a).2.capacity = a.capacity ∨
    (operation.perform a).2.capacity = a.capacity / 2 := by
  obtain hsame | ⟨rest, hrest, hcapacity, -⟩ := perform_removal_cases (a := a) hremoval
  · rw [hsame]
    exact .inl rfl
  · rw [hrest, capacity_shrinkIfSparse, hcapacity]
    split
    · exact .inr rfl
    · exact .inl rfl

theorem Dense.perform (ha : a.Dense) (operation : Operation α) : (operation.perform a).2.Dense := by
  cases operation with
  | append value => exact ha.append value
  | get index => exact ha
  | replace index value =>
      simp only [Operation.perform, ResizableArray.replace]
      split
      · exact ha
      · split
        · exact ha
        · exact ha.of_count_le rfl (Nat.le_refl _)
  | overwrite index value =>
      simp only [Operation.perform, ResizableArray.overwrite]
      split
      · exact ha
      · exact ha.of_count_le rfl (Nat.le_refl _)
  | insert index value => exact ha.insert index value
  | removeAt index => exact ha.perform_removal trivial
  | pop => exact ha.perform_removal trivial
  | clear => exact dense_empty

/-! ## What a row of operations does -/

theorem Dense.transcript (ha : a.Dense) (operations : List (Operation α)) :
    (ScriptCore.transcript Operation.perform operations a).2.Dense :=
  transcript_keeps Dense (fun operation _ ha => ha.perform operation) operations ha

theorem dense_ofList (values : List α) : (ofList values).Dense := by
  suffices h : ∀ (values : List α) (a : ResizableArray α), a.Dense →
      (values.foldl ResizableArray.append a).Dense by
    exact h values empty dense_empty
  intro values
  induction values with
  | nil => exact fun a ha => ha
  | cons value rest ih => exact fun a ha => ih _ (ha.append value)

theorem Holds.size_slots {items : List α} (ha : a.Holds items) : a.slots.size = a.capacity := by
  have hfits := ha.fits
  rw [← Array.length_toList, ha.slots_eq, List.length_append, List.length_map,
    List.length_replicate]
  omega

/-- The slots in use are those of the elements. -/
theorem Holds.isSome_slotAt_iff {items : List α} (ha : a.Holds items) (place : ℕ) :
    (a.slotAt place).isSome = true ↔ place < a.count := by
  by_cases hlt : place < items.length
  · simp [ha.slotAt_eq hlt, ha.count_eq, hlt]
  · have hvacant : a.slotAt place = none := by
      rw [slotAt, Array.getD_eq_getD_getElem?, ← Array.getElem?_toList, ha.slots_eq,
        List.getElem?_append_right (by simpa using hlt), List.getElem?_replicate]
      split <;> rfl
    simp [hvacant, ha.count_eq, hlt]

/-- **The capacity after any operations.**  Whatever is done with an array that was built from
values, its capacity is a power of two and the number of its slots, of which just the first ones are
in use, one for each element; and half of the slots are, unless there is but one.  So a removal
halves the capacity at most once and leaves nothing to be halved again, and removals in whichever
order bring the capacity back to one when they have taken out all elements. -/
theorem capacity_transcript (values : List α) (operations : List (Operation α)) :
    ∃ outcomes a,
      transcript Operation.perform operations (ofList values) = (outcomes, a) ∧
      a.capacity.isPowerOfTwo ∧ a.count ≤ a.capacity ∧
      a.slots.size = a.capacity ∧
      (∀ place, (a.slotAt place).isSome = true ↔ place < a.count) ∧
      (a.capacity = 1 ∨ a.capacity / 2 ≤ a.count) ∧
      (∀ removal : Operation α, removal.IsRemoval →
        ((removal.perform a).2.capacity = a.capacity ∨
          (removal.perform a).2.capacity = a.capacity / 2) ∧
        (removal.perform a).2.shrinkIfSparse = (removal.perform a).2) ∧
      ∀ removals : List (Operation α), (∀ removal ∈ removals, removal.IsRemoval) →
        (transcript Operation.perform removals a).2.count = 0 →
        (transcript Operation.perform removals a).2.capacity = 1 := by
  obtain ⟨-, hholds⟩ := transcript_related
    (fun operation a items (ha : a.Holds items) =>
      ⟨(ha.follows operation).outcome_eq, (ha.follows operation).holds⟩)
    operations (holds_ofList values)
  have hdense := (dense_ofList values).transcript operations
  refine ⟨_, _, rfl, hdense.isPowerOfTwo, ?_, hholds.size_slots, hholds.isSome_slotAt_iff,
    hdense.half_le, ?_, ?_⟩
  · rw [hholds.count_eq]
    exact hholds.fits
  · intro removal hremoval
    exact ⟨capacity_perform_removal hremoval, (hdense.perform removal).shrinkIfSparse_eq⟩
  · intro removals _ hempty
    exact (hdense.transcript removals).capacity_eq_one hempty

end ScriptCore.ResizableArray
