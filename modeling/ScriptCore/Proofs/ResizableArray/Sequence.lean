import ScriptCore.Proofs.ResizableArray
import ScriptCore.Proofs.Transcript

/-!
# Resizable arrays as sequences

What the operations of a resizable array do is said here a second time, on plain lists: `place?`
turns an index into a position, and each operation reads, overwrites, inserts or takes out the
element there.  Nothing of capacity or slots is left in that.

Operations that are carried out one after the other have the same outcomes on an array as on the
list of its elements, errors included, and the array then holds the list (`transcript_ofList`).  A
failing operation leaves the array as it was, and no operation ever comes upon a vacant slot where
an element should be.
-/

namespace ScriptCore.ResizableArray

variable {α : Type}

/-! ## Operations -/

/-- What is done with an array. -/
inductive Operation (α : Type)
  | append (value : α)
  | get (index : Int)
  | replace (index : Int) (value : α)
  | overwrite (index : Int) (value : α)
  | insert (index : Int) (value : α)
  | removeAt (index : Int)
  | pop
  | clear

/-- Carries out an operation on an array.  The result of some operations is an element. -/
def Operation.perform : Operation α → ResizableArray α →
    Except RuntimeError (Option α) × ResizableArray α
  | append value, a => (.ok none, a.append value)
  | get index, a => ((a.get index).map some, a)
  | replace index value, a => ((a.replace index value).1.map some, (a.replace index value).2)
  | overwrite index value, a =>
    ((a.overwrite index value).1.map fun _ => none, (a.overwrite index value).2)
  | insert index value, a => ((a.insert index value).1.map fun _ => none, (a.insert index value).2)
  | removeAt index, a => ((a.removeAt index).1.map some, (a.removeAt index).2)
  | pop, a => (a.pop.1.map some, a.pop.2)
  | clear, a => (.ok none, a.clear)

/-! ## Operations on lists -/

/-- The position that an index names: negative indices count from the end. -/
def place? (items : List α) (index : Int) : Option (Fin items.length) :=
  if hfront : 0 ≤ index ∧ index < items.length then some ⟨index.toNat, by omega⟩
  else if hback : index < 0 ∧ 0 ≤ index + items.length then
    some ⟨(index + items.length).toNat, by omega⟩
  else none

/-- Does something at the position that an index names, or reports that it names none. -/
def atPlace (operation : String) (index : Int) (items : List α)
    (act : Fin items.length → Option α × List α) : Except RuntimeError (Option α) × List α :=
  match place? items index with
  | some place => (.ok (act place).1, (act place).2)
  | none => (.error (.outOfBounds operation index items.length), items)

/-- Carries out an operation on a list. -/
def Operation.performListed : Operation α → List α → Except RuntimeError (Option α) × List α
  | append value, items => (.ok none, items ++ [value])
  | get index, items => atPlace "get_item" index items fun place => (some items[place], items)
  | replace index value, items =>
    atPlace "get_item" index items fun place => (some items[place], items.set place value)
  | overwrite index value, items =>
    atPlace "insert_at" index items fun place => (none, items.set place value)
  | insert index value, items =>
    if index = items.length then (.ok none, items ++ [value])
    else atPlace "insert_at" index items fun place => (none, items.insertIdx place value)
  | removeAt index, items =>
    if items = [] then (.error (.emptyArray "remove_at"), [])
    else atPlace "remove_at" index items fun place => (some items[place], items.eraseIdx place)
  | pop, items =>
    match items.getLast? with
    | some last => (.ok (some last), items.dropLast)
    | none => (.error (.emptyArray "pop"), [])
  | clear, _ => (.ok none, [])

variable {a : ResizableArray α} {items : List α}

/-! ## Positions -/

/-- An index names the same position in an array as in the list of its elements. -/
theorem Holds.position_eq (ha : a.Holds items) (operation : String) (index : Int) :
    a.position operation index =
      match place? items index with
      | some place => .ok place
      | none => .error (.outOfBounds operation index items.length) := by
  simp only [position, ha.count_eq, place?]
  split_ifs <;> first | omega | simp_all

/-! ## What one operation does -/

/-- What an operation gives and leaves is what it gives and leaves on the list of the elements, and
if it fails it leaves the array as it was. -/
structure Follows (a : ResizableArray α)
    (result : Except RuntimeError (Option α) × ResizableArray α)
    (listed : Except RuntimeError (Option α) × List α) : Prop where
  outcome_eq : result.1 = listed.1
  holds : result.2.Holds listed.2
  unchanged : ∀ err, result.1 = .error err → result.2 = a

/-- Operations with an index agree if they agree at the position that was found and report that none
was found. -/
theorem Holds.follows_atPlace (ha : a.Holds items) {operation : String} {index : Int}
    {act : Fin items.length → Option α × List α}
    {result : Except RuntimeError (Option α) × ResizableArray α}
    (hnone : ∀ err, a.position operation index = .error err → result = (.error err, a))
    (hsome : ∀ place : Fin items.length, a.position operation index = .ok place →
      result.1 = .ok (act place).1 ∧ result.2.Holds (act place).2) :
    Follows a result (atPlace operation index items act) := by
  have hposition := ha.position_eq operation index
  unfold atPlace
  cases hplace : place? items index with
  | none =>
      simp only [hplace] at hposition
      obtain rfl := hnone _ hposition
      exact ⟨rfl, ha, fun _ _ => rfl⟩
  | some place =>
      simp only [hplace] at hposition
      obtain ⟨houtcome, hafter⟩ := hsome place hposition
      exact ⟨houtcome, hafter, by simp [houtcome]⟩

theorem Holds.insert_follows (ha : a.Holds items) (index : Int) (value : α) :
    Follows a ((Operation.insert index value).perform a)
      ((Operation.insert index value).performListed items) := by
  simp only [Operation.perform, Operation.performListed]
  by_cases hend : index = items.length
  · rw [if_pos hend]
    have hplace : a.insertPosition index = .ok items.length := by
      simp [insertPosition, ha.count_eq, hend]
    obtain ⟨after, hinsert, hafter, -⟩ := ha.insert value hplace
    rw [hinsert]
    exact ⟨rfl, by simpa using hafter, by simp [Except.map]⟩
  · rw [if_neg hend]
    have hplace : a.insertPosition index = a.position "insert_at" index := by
      simp [insertPosition, ha.count_eq, hend]
    refine ha.follows_atPlace (fun err herr => ?_) fun place hfound => ?_
    · simp [ResizableArray.insert, hplace, herr, Except.map]
    · obtain ⟨after, hinsert, hafter, -⟩ := ha.insert value (hplace.trans hfound)
      rw [hinsert]
      exact ⟨rfl, hafter⟩

theorem Holds.removeAt_follows (ha : a.Holds items) (index : Int) :
    Follows a ((Operation.removeAt index).perform a)
      ((Operation.removeAt index).performListed items) := by
  simp only [Operation.perform, Operation.performListed]
  by_cases hempty : items = []
  · subst hempty
    have hcount : a.count = 0 := ha.count_eq
    simp only [ResizableArray.removeAt, hcount, if_true]
    exact ⟨rfl, ha, fun _ _ => rfl⟩
  · rw [if_neg hempty]
    have hcount : a.count ≠ 0 := by rwa [ha.count_eq, ne_eq, List.length_eq_zero_iff]
    refine ha.follows_atPlace (fun err herr => ?_) fun place hfound => ?_
    · simp [ResizableArray.removeAt, hcount, herr, Except.map]
    · obtain ⟨hlt, after, hremoved, hafter⟩ := ha.removeAt hfound
      rw [hremoved]
      exact ⟨rfl, hafter⟩

theorem Holds.pop_follows (ha : a.Holds items) :
    Follows a (Operation.pop.perform a) (Operation.pop.performListed items) := by
  simp only [Operation.perform, Operation.performListed]
  by_cases hempty : items = []
  · subst hempty
    have hcount : a.count = 0 := ha.count_eq
    simp only [ResizableArray.pop, hcount, if_true]
    exact ⟨rfl, ha, fun _ _ => rfl⟩
  · obtain ⟨after, hpopped, hafter⟩ := ha.pop hempty
    rw [hpopped, List.getLast?_eq_some_getLast hempty]
    exact ⟨rfl, hafter, by simp [Except.map]⟩

/-- An operation does to an array what it does to the list of its elements. -/
theorem Holds.follows (ha : a.Holds items) (operation : Operation α) :
    Follows a (operation.perform a) (operation.performListed items) := by
  cases operation with
  | append value => exact ⟨rfl, ha.append value, by simp [Operation.perform]⟩
  | get index =>
      refine ha.follows_atPlace (fun err herr => ?_) fun place hfound => ?_
      · simp [Operation.perform, get, herr, Except.map, bind, Except.bind]
      · obtain ⟨hlt, hget⟩ := ha.get_eq hfound
        exact ⟨by rw [Operation.perform, hget]; rfl, ha⟩
  | replace index value =>
      refine ha.follows_atPlace (fun err herr => ?_) fun place hfound => ?_
      · simp [Operation.perform, ResizableArray.replace, herr, Except.map]
      · simp only [Operation.perform, ResizableArray.replace, hfound, ha.slotAt_eq place.2,
          contentOf]
        exact ⟨rfl, ha.set place.2 value⟩
  | overwrite index value =>
      refine ha.follows_atPlace (fun err herr => ?_) fun place hfound => ?_
      · simp [Operation.perform, ResizableArray.overwrite, herr, Except.map]
      · simp only [Operation.perform, ResizableArray.overwrite, hfound]
        exact ⟨rfl, ha.set place.2 value⟩
  | insert index value => exact ha.insert_follows index value
  | removeAt index => exact ha.removeAt_follows index
  | pop => exact ha.pop_follows
  | clear => exact ⟨rfl, holds_empty, by simp [Operation.perform]⟩

/-! ## What a row of operations does -/

/-- Operations carried out on an array that was built from values have the same outcomes as on the
list of the values, and the array then has the elements of the list.  Whatever was done, there is an
element in each slot below the number of elements, and an operation that fails changes nothing. -/
theorem transcript_ofList (values : List α) (operations : List (Operation α)) :
    ∃ outcomes a items,
      transcript Operation.perform operations (ofList values) = (outcomes, a) ∧
      transcript Operation.performListed operations values = (outcomes, items) ∧
      a.toList = items ∧ a.count = items.length ∧
      (∀ place < a.count, (a.slotAt place).isSome = true) ∧
      ∀ (operation : Operation α) err after, operation.perform a = (.error err, after) →
        after = a := by
  obtain ⟨houtcomes, hholds⟩ := transcript_related
    (fun operation a items (ha : a.Holds items) =>
      ⟨(ha.follows operation).outcome_eq, (ha.follows operation).holds⟩)
    operations (holds_ofList values)
  refine ⟨_, _, _, rfl, Prod.ext houtcomes.symm rfl, hholds.toList_eq, hholds.count_eq, ?_, ?_⟩
  · intro place hplace
    rw [hholds.slotAt_eq (hholds.count_eq ▸ hplace)]
    rfl
  · intro operation err after hfails
    have hunchanged := (hholds.follows operation).unchanged err
    rw [hfails] at hunchanged
    exact hunchanged rfl

example : (ofList [] : ResizableArray α) = empty := rfl

end ScriptCore.ResizableArray
