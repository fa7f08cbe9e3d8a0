import Mathlib.Data.List.Induction
import Mathlib.Data.List.InsertIdx
import ScriptCore.ResizableArray

/-!
# What resizable arrays hold

`ResizableArray.Holds a items` says that the first slots of `a` hold the elements `items`, in
order, and that all other slots are vacant.  Each operation is described by what the array holds
afterwards; resizing never shows.

An index is first turned into a position (`ResizableArray.position`).  The lemmas about operations
that take an index therefore start from the position that was found.

An insertion and a removal shift elements by exchanging neighbours, one after the other.  Seen on
the row of slots, the loop of an insertion takes the first vacant slot down to the place of the new
element (`toList_sinkTo`), and that of a removal takes the emptied slot up behind the last element
(`toList_liftBy`).  The slots that are passed keep their order, so on the elements these are
`List.insertIdx` and `List.eraseIdx` (`Holds.insert`, `Holds.removeAt`).
-/

namespace ScriptCore.ResizableArray

variable {α : Type}

/-- The elements fill the first slots, and the other slots are vacant. -/
structure Holds (a : ResizableArray α) (items : List α) : Prop where
  capacity_pos : 0 < a.capacity
  count_eq : a.count = items.length
  fits : items.length ≤ a.capacity
  slots_eq : a.slots.toList = items.map some ++ List.replicate (a.capacity - items.length) none

/-- The store of the given elements with some number of vacant slots. -/
theorem holds_of_slots_eq {capacity count : Nat} {slots : Array (Option α)} {items : List α}
    (hpos : 0 < capacity) (hcount : count = items.length) (hfits : items.length ≤ capacity)
    (hslots : slots.toList = items.map some ++ List.replicate (capacity - items.length) none) :
    Holds { capacity, count, slots } items :=
  ⟨hpos, hcount, hfits, hslots⟩

theorem holds_empty : Holds (empty : ResizableArray α) [] :=
  ⟨Nat.one_pos, rfl, Nat.zero_le _, rfl⟩

variable {a : ResizableArray α} {items : List α}

theorem Holds.toList_eq (ha : a.Holds items) : a.toList = items := by
  rw [toList, ha.slots_eq, ha.count_eq, List.take_left' (by simp), List.filterMap_map]
  simp

/-! ## Capacity -/

theorem Holds.resize (ha : a.Holds items) {newCapacity : Nat}
    (hfits : items.length ≤ newCapacity) : (a.resize newCapacity).Holds items := by
  refine holds_of_slots_eq (by omega) ha.count_eq (by omega) ?_
  rw [Array.toList_append, Array.toList_extract, ha.slots_eq, ha.count_eq]
  simp [List.extract_eq_take_drop]

theorem Holds.growIfFull (ha : a.Holds items) :
    a.growIfFull.Holds items ∧ items.length < a.growIfFull.capacity := by
  have hpos := ha.capacity_pos
  have hfits := ha.fits
  have hcount := ha.count_eq
  unfold ResizableArray.growIfFull
  split
  · refine ⟨ha.resize (by omega), ?_⟩
    simp only [ResizableArray.resize]
    omega
  · exact ⟨ha, by omega⟩

theorem Holds.shrinkIfSparse (ha : a.Holds items) : a.shrinkIfSparse.Holds items := by
  unfold ResizableArray.shrinkIfSparse
  split
  · rename_i hsparse
    have hcount := ha.count_eq
    exact ha.resize (by omega)
  · exact ha

/-! ## Adding at the end -/

theorem Holds.append (ha : a.Holds items) (value : α) :
    (a.append value).Holds (items ++ [value]) := by
  obtain ⟨hgrown, hroom⟩ := ha.growIfFull
  have hfits : (items ++ [value]).length ≤ a.growIfFull.capacity := by
    simp only [List.length_append, List.length_singleton]
    omega
  refine holds_of_slots_eq hgrown.capacity_pos (by simp [hgrown.count_eq]) hfits ?_
  obtain ⟨spare, hspare⟩ : ∃ spare, a.growIfFull.capacity = items.length + 1 + spare :=
    ⟨a.growIfFull.capacity - items.length - 1, by omega⟩
  have hbefore : a.growIfFull.capacity - items.length = spare + 1 := by omega
  have hafter : a.growIfFull.capacity - (items ++ [value]).length = spare := by
    simp only [List.length_append, List.length_singleton]
    omega
  rw [Array.toList_setIfInBounds, hgrown.slots_eq, hgrown.count_eq,
    List.set_append_right _ _ (by simp), hbefore, hafter]
  simp [List.replicate_succ]

theorem holds_ofList (values : List α) : (ofList values).Holds values := by
  suffices h : ∀ (values : List α) (a : ResizableArray α) (items : List α), a.Holds items →
      (values.foldl ResizableArray.append a).Holds (items ++ values) by
    exact h values empty [] holds_empty
  intro values
  induction values with
  | nil => intro a items ha; simpa using ha
  | cons value rest ih =>
      intro a items ha
      simpa using ih _ _ (ha.append value)

/-! ## Operations at a position -/

theorem position_lt {operation : String} {index : Int} {place : Nat}
    (hplace : a.position operation index = .ok place) : place < a.count := by
  simp only [position] at hplace
  generalize (if index < 0 then index + a.count else index) = resolved at hplace
  split at hplace
  · simp at hplace
  · rename_i hinside
    injection hplace with hplace
    omega

/-- An index that counts from the front names the position that it is. -/
theorem position_natCast {operation : String} {place : Nat} (hlt : place < a.count) :
    a.position operation place = .ok place := by
  have hnonneg : ¬ (place : Int) < 0 := by omega
  have hinside : ¬ ((a.count : Int) ≤ place) := by omega
  simp [position, hnonneg, hinside]

theorem Holds.slotAt_eq (ha : a.Holds items) {place : Nat} (hlt : place < items.length) :
    a.slotAt place = some items[place] := by
  have hslot : a.slots.toList[place]? = some (some items[place]) := by
    rw [ha.slots_eq, List.getElem?_append_left (by simpa using hlt)]
    simp [hlt]
  rw [slotAt, Array.getD_eq_getD_getElem?, ← Array.getElem?_toList, hslot]
  rfl

theorem Holds.get_eq (ha : a.Holds items) {index : Int} {place : Nat}
    (hplace : a.position "get_item" index = .ok place) :
    ∃ hlt : place < items.length, a.get index = .ok items[place] := by
  have hlt : place < items.length := ha.count_eq ▸ position_lt hplace
  refine ⟨hlt, ?_⟩
  simp [get, hplace, ha.slotAt_eq hlt, contentOf, bind, Except.bind]

theorem Holds.set (ha : a.Holds items) {place : Nat} (hlt : place < items.length) (value : α) :
    Holds { a with slots := a.slots.setIfInBounds place (some value) } (items.set place value) := by
  refine holds_of_slots_eq ha.capacity_pos (by simp [ha.count_eq]) (by simpa using ha.fits) ?_
  rw [Array.toList_setIfInBounds, ha.slots_eq, List.set_append_left _ _ (by simpa using hlt)]
  simp [List.map_set]

/-! ## Shifting -/

section Shifting

variable {slots : Array (Option α)} {front rest : List (Option α)}

theorem swapIfInBounds_comm (slots : Array (Option α)) (i j : Nat) :
    slots.swapIfInBounds i j = slots.swapIfInBounds j i := by
  simp only [Array.swapIfInBounds_def]
  split <;> split
  · exact Array.swap_comm _ _
  all_goals rfl

/-- Exchanging two neighbours. -/
theorem toList_swap_of_toList_eq {x y : Option α}
    (hslots : slots.toList = front ++ x :: y :: rest) :
    (slots.swapIfInBounds front.length (front.length + 1)).toList = front ++ y :: x :: rest := by
  have hfirst : slots[front.length]? = some x := by
    rw [← Array.getElem?_toList, hslots]
    simp
  have hsecond : slots[front.length + 1]? = some y := by
    rw [← Array.getElem?_toList, hslots]
    simp
  obtain ⟨hlt, hfirst⟩ := Array.getElem?_eq_some_iff.1 hfirst
  obtain ⟨hlt', hsecond⟩ := Array.getElem?_eq_some_iff.1 hsecond
  rw [Array.swapIfInBounds_def, dif_pos hlt, dif_pos hlt', Array.toList_swap, hfirst, hsecond,
    hslots]
  simp

/-- The loop of an insertion: the slots that the sinking one passes move up and stay in order. -/
theorem toList_sinkTo {hole : Option α} {back : List (Option α)}
    (hslots : slots.toList = front ++ back ++ hole :: rest) :
    (sinkTo front.length (front.length + back.length) slots).toList =
      front ++ hole :: (back ++ rest) := by
  -- The slot is exchanged with the last one before it first.
  induction back using List.reverseRecOn generalizing slots rest with
  | nil =>
      have hstop : sinkTo front.length front.length slots = slots := by
        cases front.length with
        | zero => rfl
        | succ place => rw [sinkTo, if_neg (Nat.not_succ_le_self place)]
      simpa [hstop] using hslots
  | append_singleton back last ih =>
      have hpair : slots.toList = (front ++ back) ++ last :: hole :: rest := by
        simpa using hslots
      have hswapped := toList_swap_of_toList_eq hpair
      rw [swapIfInBounds_comm, List.length_append] at hswapped
      rw [List.length_append, List.length_singleton, ← Nat.add_assoc, sinkTo,
        if_pos (Nat.le_add_right _ _), ih hswapped]
      simp

/-- The loop of a removal: the slots that the lifted one passes move down and stay in order. -/
theorem toList_liftBy {hole : Option α} {back : List (Option α)}
    (hslots : slots.toList = front ++ hole :: (back ++ rest)) :
    (liftBy back.length front.length slots).toList = front ++ back ++ hole :: rest := by
  induction back generalizing slots front with
  | nil => simpa [liftBy] using hslots
  | cons next back ih =>
      have hswapped : (slots.swapIfInBounds front.length (front.length + 1)).toList =
          (front ++ [next]) ++ hole :: (back ++ rest) := by
        simpa using toList_swap_of_toList_eq hslots
      have hlifted := ih hswapped
      rw [List.length_append, List.length_singleton] at hlifted
      rw [List.length_cons, liftBy, hlifted]
      simp

end Shifting

theorem insertIdx_length_append {β : Type} (front back : List β) (value : β) :
    (front ++ back).insertIdx front.length value = front ++ value :: back := by
  induction front with
  | nil => rfl
  | cons head tail ih => simpa using ih

theorem Holds.insert (ha : a.Holds items) {index : Int} {place : Nat} (value : α)
    (hplace : a.insertPosition index = .ok place) :
    ∃ after, a.insert index value = (.ok (), after) ∧ after.Holds (items.insertIdx place value) ∧
      place ≤ items.length := by
  have hle : place ≤ items.length := by
    unfold insertPosition at hplace
    split at hplace
    · injection hplace with hplace
      exact Nat.le_of_eq (hplace ▸ ha.count_eq)
    · exact Nat.le_of_lt (ha.count_eq ▸ position_lt hplace)
  obtain ⟨hgrown, hroom⟩ := ha.growIfFull
  refine ⟨_, by simp only [ResizableArray.insert, hplace]; rfl, ?_, hle⟩
  generalize a.growIfFull = grown at hgrown hroom
  obtain ⟨front, back, rfl, rfl⟩ : ∃ front back, items = front ++ back ∧ place = front.length :=
    ⟨items.take place, items.drop place, (List.take_append_drop _ _).symm, by simp [hle]⟩
  rw [insertIdx_length_append]
  simp only [List.length_append] at hroom
  refine holds_of_slots_eq hgrown.capacity_pos (by simp [hgrown.count_eq, Nat.add_assoc])
    (by simp; omega) ?_
  obtain ⟨spare, hspare⟩ : ∃ spare, grown.capacity = front.length + back.length + 1 + spare :=
    ⟨grown.capacity - (front.length + back.length) - 1, by omega⟩
  -- The first vacant slot sinks to the place, past the elements behind it.
  have hslots : grown.slots.toList =
      front.map some ++ back.map some ++ none :: List.replicate spare none := by
    have hvacant : grown.capacity - (front ++ back).length = spare + 1 := by
      simp only [List.length_append]
      omega
    rw [hgrown.slots_eq, hvacant, List.map_append, List.replicate_succ]
  have hsunk := toList_sinkTo hslots
  simp only [List.length_map] at hsunk
  have hcount : grown.count = front.length + back.length := by simp [hgrown.count_eq]
  have hvacant : grown.capacity - (front ++ value :: back).length = spare := by
    simp only [List.length_append, List.length_cons]
    omega
  rw [Array.toList_setIfInBounds, hcount, hsunk, List.set_append_right _ _ (by simp), hvacant]
  simp

theorem Holds.removeAt (ha : a.Holds items) {index : Int} {place : Nat}
    (hplace : a.position "remove_at" index = .ok place) :
    ∃ (hlt : place < items.length) (after : ResizableArray α),
      a.removeAt index = (.ok items[place], after) ∧ after.Holds (items.eraseIdx place) := by
  have hlt : place < items.length := ha.count_eq ▸ position_lt hplace
  have hfits := ha.fits
  have hnonempty : a.count ≠ 0 := by
    have := ha.count_eq
    omega
  refine ⟨hlt, _, by
    simp only [ResizableArray.removeAt, hnonempty, if_false, hplace, ha.slotAt_eq hlt, contentOf]
    rfl, ?_⟩
  obtain ⟨front, back, hitems, hfront⟩ : ∃ front back,
      items = front ++ items[place] :: back ∧ place = front.length :=
    ⟨items.take place, items.drop (place + 1), by simp, by simp; omega⟩
  generalize items[place] = removed at hitems
  subst hitems hfront
  have herased : (front ++ removed :: back).eraseIdx front.length = front ++ back := by
    rw [List.eraseIdx_append_of_length_le (Nat.le_refl _)]
    simp
  rw [herased]
  simp only [List.length_append, List.length_cons] at hfits
  refine Holds.shrinkIfSparse (holds_of_slots_eq ha.capacity_pos
    (by simp [ha.count_eq]) (by simp; omega) ?_)
  -- The slot of the element is emptied and lifted behind the last one.
  have hslots : (a.slots.setIfInBounds front.length none).toList = front.map some ++ none ::
      (back.map some ++ List.replicate (a.capacity - (front.length + (back.length + 1))) none) := by
    rw [Array.toList_setIfInBounds, ha.slots_eq, List.map_append, List.append_assoc,
      List.set_append_right _ _ (by simp)]
    simp
  have hlifted := toList_liftBy hslots
  simp only [List.length_map] at hlifted
  have hsteps : a.count - 1 - front.length = back.length := by
    rw [ha.count_eq]
    simp
  have hspare : a.capacity - (front ++ back).length =
      a.capacity - (front.length + (back.length + 1)) + 1 := by
    simp only [List.length_append]
    omega
  rw [hsteps, hlifted, hspare, List.map_append, List.replicate_succ]

/-- Taking out the element at an index that counts from the front. -/
theorem Holds.removeAt_natCast (ha : a.Holds items) {place : Nat} (hlt : place < items.length) :
    ∃ after, a.removeAt place = (.ok items[place], after) ∧ after.Holds (items.eraseIdx place) := by
  obtain ⟨_, after, hremoved, hafter⟩ := ha.removeAt (position_natCast (ha.count_eq ▸ hlt))
  exact ⟨after, hremoved, hafter⟩

theorem Holds.pop (ha : a.Holds items) (hnonempty : items ≠ []) :
    ∃ after : ResizableArray α, a.pop = (.ok (items.getLast hnonempty), after) ∧
      after.Holds items.dropLast := by
  have hpos : 0 < items.length := List.length_pos_iff.2 hnonempty
  have hfits := ha.fits
  have hcount : a.count ≠ 0 := by
    have := ha.count_eq
    omega
  have hlast : a.slotAt (a.count - 1) = some (items.getLast hnonempty) := by
    rw [ha.count_eq, ha.slotAt_eq (Nat.sub_lt hpos Nat.one_pos), List.getLast_eq_getElem]
  refine ⟨_, by simp only [ResizableArray.pop, hcount, if_false, hlast, contentOf]; rfl, ?_⟩
  have hlength : items.dropLast.length = items.length - 1 := List.length_dropLast
  refine Holds.shrinkIfSparse (holds_of_slots_eq ha.capacity_pos (by rw [ha.count_eq, hlength])
    (by omega) ?_)
  obtain ⟨front, last, rfl⟩ : ∃ front last, items = front ++ [last] :=
    ⟨_, _, (List.dropLast_concat_getLast hnonempty).symm⟩
  -- The slot of the last element joins the vacant ones behind it.
  have hspare : a.capacity - front.length = a.capacity - (front ++ [last]).length + 1 := by
    simp only [List.length_append, List.length_singleton] at hfits ⊢
    omega
  have hplace : a.count - 1 = front.length := by simp [ha.count_eq]
  rw [Array.toList_setIfInBounds, ha.slots_eq, List.set_append_left _ _ (by simp [hplace]), hplace]
  simp only [List.dropLast_concat, hspare]
  simp [List.replicate_succ]

end ScriptCore.ResizableArray
