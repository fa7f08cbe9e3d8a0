import ScriptCore.Operation
import ScriptCore.Proofs.Decimal.Order
import ScriptCore.Proofs.ValueKey

/-!
# The operators of order and equality

Two values can be compared if both are numbers, both strings or both instants.  The operators of
order are then derived from one answer, how the values stand to each other (`Value.Compared`), but
equality is decided apart from it, with a conversion of integers to floats of its own.  That all of
them belong together is `comparison_coherent`: exactly one of `<`, `==` and `>` holds, and `<=` and
`>=` are what their names say.

NaN stands in no order to anything.  In the place of one each operator takes an order for which it
does not hold, so that with NaN none of the operators holds, on whichever side it is.  NaN does not
come in by the conversion of an integer, which is rounded but never NaN.
-/

namespace ScriptCore

open Decimal

variable {h : Heap} {a b : Value} {order : Option Ordering}

namespace Value

/-- Two values are of one kind, and of one that has an order. -/
def Ordered (a b : Value) : Prop :=
  a.kind = b.kind ∧ a.kind ∈ [Kind.number, .string, .datetime]

/-- Whether a value is a float that is not a number. -/
def isNaN : Value → Bool
  | float number => number.isNaN
  | _ => false

/-- How two values stand to each other.  Numbers of different types are compared as floats. -/
inductive Compared : Value → Value → Option Ordering → Prop
  | integers (left right : Int64) :
      Compared (.integer left) (.integer right) (some (compare left right))
  | floats (left right : Float) :
      Compared (.float left) (.float right) (compareFloats left right)
  | mixed (integer : Int64) (float : Float) :
      Compared (.integer integer) (.float float) (compareFloats (Float.ofInt integer.toInt) float)
  | mixed' (integer : Int64) (float : Float) :
      Compared (.float float) (.integer integer) (compareFloats float (Float.ofInt integer.toInt))
  | strings (left right : String) :
      Compared (.string left) (.string right) (some (compare left right))
  | datetimes (left right : Instant) :
      Compared (.datetime left) (.datetime right) (some (left.order right))

end Value

namespace Heap

/-- An operator answers whether it holds, and leaves the heap as it is. -/
def Answers (h : Heap) (operator : BinaryOperator) (a b : Value) (answer : Bool) : Prop :=
  (applyBinary operator a b).on h = (.ok (.boolean answer), h)

/-- An operator refuses two values by their types, and leaves the heap as it is. -/
def RefusesToCompare (h : Heap) (operator : BinaryOperator) (a b : Value) : Prop :=
  (applyBinary operator a b).on h =
    (.error (.typeMismatch operator.symbol ("value comparable with " ++ a.tag.name) b.tag), h)

/-- The answers of the operators belong together: an operator and its mirror image agree on the
operands in either order, `<=` and `>=` allow for equality, and one of the other three holds unless
there is NaN. -/
structure Coherent (h : Heap) (a b : Value) (less equal greater : Bool) : Prop where
  answers_less : h.Answers .less a b less ∧ h.Answers .greater b a less
  answers_equal : h.Answers .equal a b equal ∧ h.Answers .equal b a equal
  answers_greater : h.Answers .greater a b greater ∧ h.Answers .less b a greater
  answers_lessEqual :
    h.Answers .lessEqual a b (less || equal) ∧ h.Answers .greaterEqual b a (less || equal)
  answers_greaterEqual :
    h.Answers .greaterEqual a b (greater || equal) ∧ h.Answers .lessEqual b a (greater || equal)
  count_true : [less, equal, greater].count true = if a.isNaN || b.isNaN then 0 else 1

end Heap

/-! ## Floats and instants -/

theorem compareFloats_eq (x y : Float) :
    compareFloats x y = x.toModel.unpack.compare y.toModel.unpack := by
  have hgreater : y < x ↔ x.toModel.unpack.compare y.toModel.unpack = some .gt := by
    rw [lt_iff_compare, compare_swap]
    cases x.toModel.unpack.compare y.toModel.unpack with
    | none => simp
    | some order => cases order <;> simp
  unfold compareFloats
  simp only [lt_iff_compare x y, hgreater, beq_iff_compare]
  cases x.toModel.unpack.compare y.toModel.unpack with
  | none => rfl
  | some order => cases order <;> rfl

theorem compareFloats_swap (x y : Float) :
    compareFloats y x = (compareFloats x y).map Ordering.swap := by
  rw [compareFloats_eq, compareFloats_eq, compare_swap]

theorem compareFloats_eq_none_iff (x y : Float) :
    compareFloats x y = none ↔ x = Float.nan ∨ y = Float.nan := by
  rw [compareFloats_eq, compare_eq_none_iff, unpack_eq_notANumber_iff, unpack_eq_notANumber_iff]

theorem beq_iff_compareFloats (x y : Float) : (x == y) = true ↔ compareFloats x y = some .eq := by
  rw [compareFloats_eq, beq_iff_compare]

theorem Instant.order_swap (s t : Instant) : t.order s = (s.order t).swap := by
  rw [order, order, Ordering.swap_then, Int.compare_swap, Nat.compare_swap]

theorem Instant.order_eq_iff (s t : Instant) : s.order t = .eq ↔ s = t := by
  rw [order, Ordering.then_eq_eq, Std.compare_eq_iff_eq, Std.compare_eq_iff_eq, Instant.mk.injEq]

/-! ## How values stand to each other -/

theorem compareValues_of_compared (hcompared : Value.Compared a b order) :
    compareValues a b = some order := by
  cases hcompared <;> rfl

namespace Value

/-- Values of one ordered kind stand to each other in some way, if only in none because of NaN, and
no others do. -/
theorem ordered_iff_exists_compared : Ordered a b ↔ ∃ order, Compared a b order := by
  constructor
  · rintro ⟨hkind, hordered⟩
    cases a <;> cases b <;> simp [kind] at hkind hordered
    case integer.integer l r => exact ⟨_, .integers l r⟩
    case integer.float n y => exact ⟨_, .mixed n y⟩
    case float.integer x n => exact ⟨_, .mixed' n x⟩
    case float.float x y => exact ⟨_, .floats x y⟩
    case string.string l r => exact ⟨_, .strings l r⟩
    case datetime.datetime s t => exact ⟨_, .datetimes s t⟩
  · rintro ⟨order, hcompared⟩
    cases hcompared <;> simp [Ordered, kind]

theorem Compared.swap (hcompared : Compared a b order) :
    Compared b a (order.map Ordering.swap) := by
  cases hcompared with
  | integers l r =>
      rw [Option.map_some, ← Std.OrientedOrd.eq_swap]
      exact .integers r l
  | floats x y =>
      rw [← compareFloats_swap]
      exact .floats y x
  | mixed n y =>
      rw [← compareFloats_swap]
      exact .mixed' n y
  | mixed' n x =>
      rw [← compareFloats_swap]
      exact .mixed n x
  | strings l r =>
      rw [Option.map_some, ← Std.OrientedOrd.eq_swap]
      exact .strings r l
  | datetimes s t =>
      rw [Option.map_some, ← Instant.order_swap]
      exact .datetimes t s

theorem Compared.eq_none_iff (hcompared : Compared a b order) :
    order = none ↔ (a.isNaN || b.isNaN) = true := by
  cases hcompared with
  | floats x y => simp [compareFloats_eq_none_iff, isNaN]
  | mixed n y => simp [compareFloats_eq_none_iff, ofInt_ne_nan, isNaN]
  | mixed' n x => simp [compareFloats_eq_none_iff, ofInt_ne_nan, isNaN]
  | _ => simp [isNaN]

/-- Equality converts an integer to a float just as order does. -/
theorem Compared.equals_iff (hcompared : Compared a b order) :
    h.equals a b = true ↔ order = some .eq := by
  have hequals : h.equals a b = true ↔ h.compareHeads a b = some [] := by
    cases hcompared <;> exact Heap.equals_iff_of_keyText? rfl
  have hagree : ∀ same : Bool,
      (if same then some ([] : List (Value × Value)) else none) = some [] ↔ same = true := by
    simp
  rw [hequals]
  cases hcompared with
  | integers l r => exact (hagree _).trans (by simp)
  | floats x y => exact (hagree _).trans (beq_iff_compareFloats x y)
  | mixed n y => exact (hagree _).trans (beq_iff_compareFloats _ y)
  | mixed' n x =>
      -- Equality has the integer on the left even then.
      refine (hagree _).trans ?_
      rw [Heap.sameNumber, BEq.comm]
      exact beq_iff_compareFloats x _
  | strings l r => exact (hagree _).trans (by simp)
  | datetimes s t => exact (hagree _).trans (by simp [Instant.order_eq_iff])

theorem isSome_toFloat?_iff : a.toFloat?.isSome = true ↔ a.kind = .number := by
  cases a <;> simp [toFloat?, kind]

end Value

theorem compareValues_eq_none (hordered : ¬ Value.Ordered a b) : compareValues a b = none := by
  fun_cases compareValues a b with
  | case1 l r => exact absurd ⟨rfl, by simp [Value.kind]⟩ hordered
  | case2 l r => exact absurd ⟨rfl, by simp [Value.kind]⟩ hordered
  | case3 s t => exact absurd ⟨rfl, by simp [Value.kind]⟩ hordered
  | case4 =>
      rename_i x y hx hy _ _ _
      have ha : a.kind = .number := Value.isSome_toFloat?_iff.1 (by rw [hx]; rfl)
      have hb : b.kind = .number := Value.isSome_toFloat?_iff.1 (by rw [hy]; rfl)
      exact absurd ⟨ha.trans hb.symm, by simp [ha]⟩ hordered
  | case5 =>
      rename_i _ _ _ hnone
      split
      · rename_i x y hx hy
        exact absurd hy (hnone x y hx)
      · rfl

/-! ## The operators of order -/

/-- The operator that says the same of the operands the other way round. -/
def BinaryOperator.mirror : BinaryOperator → BinaryOperator
  | less => greater
  | lessEqual => greaterEqual
  | greater => less
  | greaterEqual => lessEqual
  | other => other

namespace BinaryOperator

theorem holdsFor_lessEqual (order : Option Ordering) :
    lessEqual.holdsFor order = (less.holdsFor order || decide (order = some .eq)) := by
  rcases order with _ | _ | _ | _ <;> decide

theorem holdsFor_greaterEqual (order : Option Ordering) :
    greaterEqual.holdsFor order = (greater.holdsFor order || decide (order = some .eq)) := by
  rcases order with _ | _ | _ | _ <;> decide

/-- Without an order none of the operators holds, and with it one of the strict ones does or the
values are equal. -/
theorem count_holdsFor (order : Option Ordering) :
    [less.holdsFor order, decide (order = some .eq), greater.holdsFor order].count true =
      if order = none then 0 else 1 := by
  rcases order with _ | _ | _ | _ <;> decide

variable {operator : BinaryOperator}

theorem mirror_mem (hoperator : operator ∈ [less, lessEqual, greater, greaterEqual]) :
    operator.mirror ∈ [less, lessEqual, greater, greaterEqual] := by
  fin_cases hoperator <;> decide

theorem holdsFor_mirror (hoperator : operator ∈ [less, lessEqual, greater, greaterEqual])
    (order : Option Ordering) :
    operator.mirror.holdsFor (order.map Ordering.swap) = operator.holdsFor order := by
  fin_cases hoperator <;> rcases order with _ | _ | _ | _ <;> decide

end BinaryOperator

namespace Heap

section

variable {operator : BinaryOperator}
  (hoperator : operator ∈ [.less, .lessEqual, .greater, .greaterEqual])

include hoperator

theorem applyBinary_on_of_order :
    (applyBinary operator a b).on h = ((ordering operator a b).map .boolean, h) := by
  fin_cases hoperator <;> rfl

theorem answers_of_compared (hcompared : Value.Compared a b order) :
    h.Answers operator a b (operator.holdsFor order) := by
  rw [Answers, applyBinary_on_of_order hoperator, ordering,
    compareValues_of_compared hcompared]
  rfl

theorem refuses_of_not_ordered (hordered : ¬ Value.Ordered a b) :
    h.RefusesToCompare operator a b := by
  rw [RefusesToCompare, applyBinary_on_of_order hoperator, ordering,
    compareValues_eq_none hordered]
  rfl

end

theorem answers_either_way (hcompared : Value.Compared a b order) (operator : BinaryOperator)
    (hoperator : operator ∈ [.less, .lessEqual, .greater, .greaterEqual]) :
    h.Answers operator a b (operator.holdsFor order) ∧
      h.Answers operator.mirror b a (operator.holdsFor order) := by
  refine ⟨answers_of_compared hoperator hcompared, ?_⟩
  rw [← BinaryOperator.holdsFor_mirror hoperator]
  exact answers_of_compared (BinaryOperator.mirror_mem hoperator) hcompared.swap

/-! ## Order and equality -/

theorem answers_equal_of_compared (hcompared : Value.Compared a b order) :
    h.Answers .equal a b (order = some .eq) := by
  have hequals : h.equals a b = decide (order = some .eq) := by
    rw [Bool.eq_iff_iff, hcompared.equals_iff, decide_eq_true_iff]
  rw [← hequals]
  rfl

theorem answers_equal_of_compared_swap (hcompared : Value.Compared a b order) :
    h.Answers .equal b a (order = some .eq) := by
  have hswap : order.map Ordering.swap = some .eq ↔ order = some .eq := by
    rcases order with _ | _ | _ | _ <;> decide
  have hswapped : h.Answers .equal b a (order.map Ordering.swap = some .eq) :=
    answers_equal_of_compared hcompared.swap
  simpa only [hswap] using hswapped

theorem coherent_of_compared (hcompared : Value.Compared a b order) :
    h.Coherent a b (BinaryOperator.less.holdsFor order) (order = some .eq)
      (BinaryOperator.greater.holdsFor order) where
  answers_less := answers_either_way hcompared .less (by simp)
  answers_equal :=
    ⟨answers_equal_of_compared hcompared, answers_equal_of_compared_swap hcompared⟩
  answers_greater := answers_either_way hcompared .greater (by simp)
  answers_lessEqual := by
    rw [← BinaryOperator.holdsFor_lessEqual]
    exact answers_either_way hcompared .lessEqual (by simp)
  answers_greaterEqual := by
    rw [← BinaryOperator.holdsFor_greaterEqual]
    exact answers_either_way hcompared .greaterEqual (by simp)
  count_true := by
    rw [BinaryOperator.count_holdsFor]
    simp only [hcompared.eq_none_iff]

/-- **The operators of order and equality belong together.**  Values that are not of one ordered
kind are refused by the four operators of order.  Of two others exactly one of `<`, `==` and `>`
holds, or none at all if NaN is among them; and an operator says of them what its mirror image says
of them the other way round. -/
theorem comparison_coherent (h : Heap) (a b : Value) :
    (¬ Value.Ordered a b → ∀ operator ∈ [.less, .lessEqual, .greater, .greaterEqual],
      h.RefusesToCompare operator a b) ∧
    (Value.Ordered a b → ∃ less equal greater, h.Coherent a b less equal greater) := by
  refine ⟨fun hordered operator hoperator => refuses_of_not_ordered hoperator hordered,
    fun hordered => ?_⟩
  obtain ⟨order, hcompared⟩ := Value.ordered_iff_exists_compared.1 hordered
  exact ⟨_, _, _, coherent_of_compared hcompared⟩

/-- An integer that no float is equals the float to which it is rounded, so it is not greater. -/
example : compareValues (.integer 9007199254740993) (.float 9007199254740992) = some (some .eq) :=
  rfl

end Heap

end ScriptCore
