/-!
# Sums that shrink

Walks over the arena take up every record at most once.  What is left to do is measured by a sum
over what was not taken up yet; here is how such a sum changes when something is left out of it or
exchanged.
-/

namespace ScriptCore

/-- The sum of a measure over a list. -/
def total {α : Type} (measure : α → Nat) : List α → Nat
  | [] => 0
  | x :: l => measure x + total measure l

@[simp] theorem total_nil {α : Type} (measure : α → Nat) : total measure [] = 0 :=
  rfl

@[simp] theorem total_cons {α : Type} (measure : α → Nat) (x : α) (l : List α) :
    total measure (x :: l) = measure x + total measure l :=
  rfl

theorem total_append {α : Type} (measure : α → Nat) (first second : List α) :
    total measure (first ++ second) = total measure first + total measure second := by
  induction first with
  | nil => simp
  | cons x rest ih => simp [ih, Nat.add_assoc]

/-- A narrower choice from a list has no greater sum. -/
theorem total_filter_le {α : Type} (measure : α → Nat) {narrow wide : α → Bool}
    (within : ∀ x, narrow x = true → wide x = true) :
    ∀ l : List α, total measure (l.filter narrow) ≤ total measure (l.filter wide)
  | [] => by simp
  | y :: l => by
    have tail := total_filter_le measure within l
    by_cases inNarrow : narrow y = true
    · simp only [List.filter_cons, inNarrow, within y inNarrow, if_true, total_cons]
      omega
    · by_cases inWide : wide y = true <;> simp [inNarrow, inWide]
      · omega
      · exact tail

/-- A choice from a list that leaves out an element of a wider choice has a sum that is lower by at
least what the element adds to it. -/
theorem total_filter_add_le {α : Type} (measure : α → Nat) (narrow wide : α → Bool)
    (within : ∀ x, narrow x = true → wide x = true) {x : α} (inWide : wide x = true)
    (leftOut : narrow x = false) :
    ∀ {l : List α}, x ∈ l →
      total measure (l.filter narrow) + measure x ≤ total measure (l.filter wide)
  | [], member => by simp at member
  | y :: l, member => by
    by_cases same : y = x
    · subst same
      have tail := total_filter_le measure within l
      simp only [List.filter_cons, leftOut, inWide, if_true, Bool.false_eq_true, if_false,
        total_cons]
      omega
    · have tail := total_filter_add_le measure narrow wide within inWide leftOut
        ((List.mem_cons.1 member).resolve_left (Ne.symm same))
      by_cases inNarrow : narrow y = true
      · simp only [List.filter_cons, inNarrow, within y inNarrow, if_true, total_cons]
        omega
      · by_cases alsoWide : wide y = true <;> simp [inNarrow, alsoWide]
        · omega
        · exact tail

/-- Exchanging an element of a list changes a sum over the list by the difference of what the two
elements add to it. -/
theorem total_modify_add {α : Type} (measure : α → Nat) (change : α → α) :
    ∀ {l : List α} {i : Nat} {x : α}, l[i]? = some x →
      total measure (l.modify i change) + measure x = total measure l + measure (change x)
  | [], i, x, found => by simp at found
  | y :: l, 0, x, found => by
    obtain rfl : y = x := by simpa using found
    simp only [List.modify_zero_cons, total_cons]
    omega
  | y :: l, i + 1, x, found => by
    have tail := total_modify_add measure change (l := l) (i := i) (x := x) (by simpa using found)
    simp only [List.modify_succ_cons, total_cons]
    omega

end ScriptCore
