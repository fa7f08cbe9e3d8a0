import ScriptCore.Method.Dict
import ScriptCore.Method.List
import ScriptCore.Operation
import ScriptCore.Proofs.Attempt
import ScriptCore.Struct

/-!
# The routines of the host in a heap

Evaluating puts functions into the heap, closures and bound methods, but never a routine of the
host.  `Heap.Permits allowed h` says that all routines of the host in a heap are of some kind;
whatever the language does to the heap maintains it, whether or not it fails.

Routines cannot put routines there either, since what they can ask for makes closures only.  So a
program runs with the routines that were in the heap when it began, and a condition on routines has
to be asked of these alone.  The statements hold of failed operations too, for a handler goes on in
the heap that the failure leaves.
-/

namespace ScriptCore

/-- The routines of the host that stand in the heap are allowed ones. -/
def Heap.Permits (allowed : HostRoutine → Prop) (h : Heap) : Prop :=
  ∀ address routine, (h.function address).callable = .host routine → allowed routine

open Attempt

variable {allowed allowed' : HostRoutine → Prop}

namespace Heap

variable {h : Heap}

theorem Permits.mono (hh : h.Permits allowed)
    (himp : ∀ routine, allowed routine → allowed' routine) : h.Permits allowed' :=
  fun address routine hroutine => himp routine (hh address routine hroutine)

/-- Where there is no function one reads the default one. -/
theorem permits_of_not_native (hclosures : ∀ f ∈ h.functions, f.callable.isNative = false)
    (hcount : allowed .count) : h.Permits allowed := by
  intro address routine hroutine
  rw [function, Array.getD_eq_getD_getElem?] at hroutine
  cases hfound : h.functions[address]? with
  | none =>
      rw [hfound] at hroutine
      obtain rfl := Callable.host.inj hroutine
      exact hcount
  | some f =>
      have hclosure := hclosures f (Array.mem_of_getElem? hfound)
      rw [hfound] at hroutine
      change f.callable = .host routine at hroutine
      rw [hroutine] at hclosure
      nomatch hclosure

theorem permits_empty (hcount : allowed .count) : Heap.empty.Permits allowed :=
  permits_of_not_native (fun _ hf => absurd hf (Array.not_mem_empty _)) hcount

/-! ## Functions -/

theorem Permits.setFunction (hh : h.Permits allowed) (address : Address) {content : Function}
    (hcontent : content.callable = (h.function address).callable) :
    (h.setFunction address content).Permits allowed := by
  intro other routine hroutine
  simp only [function, Heap.setFunction, Array.getD_eq_getD_getElem?,
    Array.getElem?_setIfInBounds] at hroutine
  split at hroutine
  · subst other
    split at hroutine
    · exact hh address routine (hcontent.symm.trans hroutine)
    · rename_i hout
      refine hh address routine ?_
      rw [function, Array.getD_eq_getD_getElem?, Array.getElem?_eq_none (Nat.le_of_not_lt hout)]
      exact hroutine
  · refine hh other routine ?_
    rw [function, Array.getD_eq_getD_getElem?]
    exact hroutine

theorem Permits.newFunction (hh : h.Permits allowed) (name : String) (parameters : Parameters)
    {callable : Callable} (hcallable : ∀ routine, callable = .host routine → allowed routine) :
    (h.newFunction name parameters callable).2.Permits allowed := by
  intro other routine hroutine
  simp only [function, Heap.newFunction, Array.getD_eq_getD_getElem?, Array.getElem?_push]
    at hroutine
  split at hroutine
  · exact hcallable routine hroutine
  · refine hh other routine ?_
    rw [function, Array.getD_eq_getD_getElem?]
    exact hroutine

theorem maintains_boundMethod (name : String) (parameters : Parameters) {callable : Callable}
    (hcallable : ∀ routine, callable ≠ .host routine) :
    (boundMethod name parameters callable).Maintains (Permits allowed) :=
  fun _ hh => hh.newFunction name parameters fun routine hroutine =>
    absurd hroutine (hcallable routine)

theorem maintains_getAttribute (value : Value) (name : String) :
    (getAttribute value name).Maintains (Permits allowed) := by
  cases value with
  | list address =>
      rw [getAttribute]
      split
      · exact maintains_boundMethod _ _ fun _ => nofun
      · exact .throw _
  | dict address =>
      rw [getAttribute]
      split
      · exact maintains_boundMethod _ _ fun _ => nofun
      · exact .throw _
  | error label message =>
      rw [getAttribute]
      split
      · exact .pure _
      · exact .throw _
  | module address => exact .reading _
  | struct address => exact .reading _
  | function address => exact .reading _
  | _ => exact .throw _

theorem maintains_setDoc (target : Value) (text : String) :
    (setDoc target text).Maintains (Permits allowed) := by
  cases target with
  | function address => exact fun _ hh => hh.setFunction address rfl
  | module address => exact fun _ hh => hh
  | _ => exact .throw _

/-! ## Everything else leaves the functions as they are -/

theorem maintains_makeList (items : List Value) :
    (makeList items).Maintains (Permits allowed) :=
  fun _ hh => hh

theorem maintains_arithmetic (operator : BinaryOperator) (left right : Value) :
    (arithmetic operator left right).Maintains (Permits allowed) := by
  intro h hh
  unfold arithmetic
  split
  · exact hh
  · split
    · exact hh
    · split <;> exact hh

theorem maintains_applyBinary (operator : BinaryOperator) (left right : Value) :
    (applyBinary operator left right).Maintains (Permits allowed) := by
  cases operator with
  | add => exact maintains_arithmetic .add left right
  | subtract => exact maintains_arithmetic .subtract left right
  | multiply => exact maintains_arithmetic .multiply left right
  | divide => exact maintains_arithmetic .divide left right
  | modulo => exact maintains_arithmetic .modulo left right
  | _ => exact .reading _

theorem maintains_dictOf (entries : List (Value × Value)) :
    (dictOf entries).Maintains (Permits allowed) := by
  intro h hh
  unfold dictOf
  split <;> exact hh

theorem maintains_setAttribute (target : Value) (name : String) (value : Value) :
    (setAttribute target name value).Maintains (Permits allowed) := by
  cases target with
  | module address => exact fun _ hh => hh
  | struct address =>
      intro h hh
      simp only [setAttribute]
      split <;> exact hh
  | _ => exact .throw _

theorem maintains_instantiate (address : Address) (arguments : Arguments) :
    (instantiate address arguments).Maintains (Permits allowed) := by
  intro h hh
  simp only [instantiate]
  split
  · exact hh
  · split <;> exact hh

theorem maintains_onList {α : Type} (address : Address)
    (step : ResizableArray Value → Except RuntimeError α × ResizableArray Value) :
    (onList address step).Maintains (Permits allowed) :=
  fun _ hh => hh

theorem maintains_makePairs (pairs : List (Value × Value)) :
    (makePairs pairs).Maintains (Permits allowed) :=
  .bind (.mapM pairs fun _ => maintains_makeList _) fun _ => maintains_makeList _

end Heap

open Heap

theorem ListMethod.maintains_call (method : ListMethod) (receiver : Address)
    (arguments : Arguments) : (method.call receiver arguments).Maintains (Permits allowed) := by
  refine .bind (.reading _) fun _ => ?_
  cases method with
  | append => exact .bind (maintains_onList _ _) fun _ => .pure _
  | pop => exact maintains_onList _ _
  | insert => exact .bind (.reading _) fun _ => .bind (maintains_onList _ _) fun _ => .pure _
  | removeAt => exact .bind (.reading _) fun _ => maintains_onList _ _
  | get => exact .bind (.reading _) fun _ => .reading _
  | set => exact .bind (.reading _) fun _ => .bind (maintains_onList _ _) fun _ => .pure _
  | clear => exact .bind (maintains_onList _ _) fun _ => .pure _
  | length => exact .reading _
  | contains => exact .reading _
  | indexOf => exact .reading _

theorem DictMethod.maintains_call (method : DictMethod) (receiver : Address)
    (arguments : Arguments) : (method.call receiver arguments).Maintains (Permits allowed) := by
  refine .bind (.reading _) fun _ => ?_
  cases method with
  | get => exact .reading _
  | set =>
      intro h hh
      simp only [perform]
      split <;> exact hh
  | items => exact fun h hh => maintains_makePairs _ h hh
  | _ => exact fun _ hh => hh

end ScriptCore
