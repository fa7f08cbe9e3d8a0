import ScriptCore.Method.Dict
import ScriptCore.Method.List
import ScriptCore.Proofs.Attempt

/-!
# Work that finds no fault with its arguments

A method counts its arguments before it does anything.  What it does then can fail in many ways, but
never because the arguments do not fit: arrays, tables and dicts have errors of their own.
`Unfaulted outcome` says that an outcome is not such an error and `Attempt.Unfaulted attempt` that
no outcome of a computation is, whatever the state.

So a fault in the outcome of a method call comes from the counting alone, and whether there is one
is a matter of the number of arguments.  Arguments given by name are not counted, which is why they
go unnoticed.
-/

namespace ScriptCore

variable {σ α β : Type}

/-! ## Outcomes that find no fault with arguments -/

/-- The error is that arguments do not fit. -/
def RuntimeError.IsArity : RuntimeError → Prop
  | .arity .. => True
  | _ => False

/-- A value, or an error that is not about the arguments. -/
def Unfaulted : Except RuntimeError α → Prop
  | .ok _ => True
  | .error err => ¬ err.IsArity

theorem Unfaulted.bind {outcome : Except RuntimeError α} {next : α → Except RuntimeError β}
    (houtcome : Unfaulted outcome) (hnext : ∀ value, Unfaulted (next value)) :
    Unfaulted (outcome >>= next) := by
  cases outcome with
  | ok value => exact hnext value
  | error err => exact houtcome

theorem Unfaulted.map {outcome : Except RuntimeError α} (houtcome : Unfaulted outcome)
    (change : α → β) : Unfaulted (outcome.map change) := by
  cases outcome with
  | ok value => trivial
  | error err => exact houtcome

namespace Attempt

/-- From no state does the computation find fault with arguments. -/
def Unfaulted (attempt : Attempt σ α) : Prop :=
  ∀ state, ScriptCore.Unfaulted (attempt state).1

theorem Unfaulted.pure (value : α) : Unfaulted (Pure.pure value : Attempt σ α) :=
  fun _ => trivial

theorem Unfaulted.reading {read : σ → Except RuntimeError α}
    (hread : ∀ state, ScriptCore.Unfaulted (read state)) : Unfaulted (reading read) :=
  hread

theorem Unfaulted.bind {attempt : Attempt σ α} {next : α → Attempt σ β}
    (hattempt : Unfaulted attempt) (hnext : ∀ value, Unfaulted (next value)) :
    Unfaulted (attempt >>= next) := by
  intro state
  rw [bind_on]
  have hfirst := hattempt state
  rcases hresult : attempt state with ⟨err | value, after⟩
  · rwa [hresult] at hfirst
  · exact hnext value after

theorem Unfaulted.discard {attempt : Attempt σ α} (hattempt : Unfaulted attempt) :
    Unfaulted (discard attempt : Attempt σ PUnit) := by
  intro state
  rw [discard_on]
  have hfirst := hattempt state
  rcases hresult : attempt state with ⟨err | value, after⟩
  · rwa [hresult] at hfirst
  · trivial

theorem Unfaulted.mapM {attempt : α → Attempt σ β} (values : List α)
    (hattempt : ∀ value, Unfaulted (attempt value)) : Unfaulted (values.mapM attempt) := by
  induction values with
  | nil => exact .pure []
  | cons value rest ih =>
      rw [List.mapM_cons]
      exact .bind (hattempt value) fun _ => .bind ih fun _ => .pure _

end Attempt

/-! ## Arrays -/

namespace ResizableArray

variable (a : ResizableArray α) (index : Int)

theorem unfaulted_position (operation : String) : Unfaulted (a.position operation index) := by
  simp only [position]
  generalize (if index < 0 then index + a.count else index) = resolved
  split
  · exact not_false
  · trivial

theorem unfaulted_contentOf (slot : Option α) (operation : String) (index : Int) (length : Nat) :
    Unfaulted (contentOf slot operation index length) := by
  cases slot with
  | none => exact not_false
  | some value => trivial

theorem unfaulted_get : Unfaulted (a.get index) :=
  (a.unfaulted_position index _).bind fun _ => unfaulted_contentOf _ _ _ _

theorem unfaulted_overwrite (value : α) : Unfaulted (a.overwrite index value).1 := by
  unfold overwrite
  have hposition := a.unfaulted_position index "insert_at"
  rcases hplace : a.position "insert_at" index with err | place
  · rwa [hplace] at hposition
  · trivial

theorem unfaulted_insert (value : α) : Unfaulted (a.insert index value).1 := by
  have hposition : Unfaulted (a.insertPosition index) := by
    unfold insertPosition
    split
    · trivial
    · exact a.unfaulted_position index "insert_at"
  unfold insert
  rcases hplace : a.insertPosition index with err | place
  · rwa [hplace] at hposition
  · trivial

theorem unfaulted_removeAt : Unfaulted (a.removeAt index).1 := by
  unfold removeAt
  split
  · exact not_false
  · have hposition := a.unfaulted_position index "remove_at"
    rcases hplace : a.position "remove_at" index with err | place
    · rwa [hplace] at hposition
    · exact unfaulted_contentOf _ _ _ _

theorem unfaulted_pop : Unfaulted a.pop.1 := by
  unfold pop
  split
  · exact not_false
  · exact unfaulted_contentOf _ _ _ _

end ResizableArray

/-! ## Tables and dicts -/

namespace HashTable

variable {κ ν : Type} (t : HashTable κ ν) (key : String) (hash : UInt64)

theorem unfaulted_search : Unfaulted (t.search key hash) := by
  unfold search
  split
  · trivial
  · exact not_false

theorem unfaulted_unlink : (unlink key hash : Attempt (HashTable κ ν) _).Unfaulted := by
  intro t
  unfold unlink
  split
  · exact not_false
  · trivial

theorem unfaulted_positionOf : (positionOf key : Attempt (HashTable κ ν) Nat).Unfaulted := by
  intro t
  unfold positionOf
  split
  · exact not_false
  · trivial

theorem unfaulted_remove : Unfaulted (t.remove key hash).1 := by
  have hremoval : (removal key hash : Attempt (HashTable κ ν) ν).Unfaulted := by
    refine (unfaulted_unlink key hash).bind fun entry => ?_
    refine (unfaulted_positionOf key).bind fun position => ?_
    refine .bind (.discard fun t => t.rawKeys.unfaulted_removeAt position) fun _ => ?_
    refine .bind (.discard fun t => t.hashes.unfaulted_removeAt position) fun _ => ?_
    refine .bind (.discard fun t => t.keys.unfaulted_removeAt position) fun _ => ?_
    refine .bind (.discard fun t => t.values.unfaulted_removeAt position) fun _ => ?_
    exact .bind (fun _ => trivial) fun _ => .pure _
  exact hremoval t

end HashTable

namespace Heap

variable (h : Heap)

theorem unfaulted_key (value : Value) : Unfaulted (h.key value) := by
  unfold key
  split
  · trivial
  · exact not_false

theorem unfaulted_lookupEntry (table : DictTable) (key : Value) :
    Unfaulted (h.lookupEntry table key) :=
  (h.unfaulted_key key).bind fun _ => table.unfaulted_search _ _

theorem unfaulted_hasEntry (table : DictTable) (key : Value) : Unfaulted (h.hasEntry table key) :=
  (h.unfaulted_key key).bind fun _ => trivial

theorem unfaulted_insertEntry (table : DictTable) (key value : Value) :
    Unfaulted (h.insertEntry table key value) :=
  (h.unfaulted_key key).bind fun _ => trivial

theorem unfaulted_removeEntry (table : DictTable) (key : Value) :
    Unfaulted (h.removeEntry table key).1 := by
  unfold removeEntry
  have hkey := h.unfaulted_key key
  rcases hresult : h.key key with err | k
  · rwa [hresult] at hkey
  · exact table.unfaulted_remove _ _

theorem unfaulted_makeList (items : List Value) : (makeList items).Unfaulted :=
  fun _ => trivial

theorem unfaulted_makePairs (pairs : List (Value × Value)) : (makePairs pairs).Unfaulted :=
  .bind (.mapM pairs fun _ => unfaulted_makeList _) fun _ => unfaulted_makeList _

end Heap

theorem Value.unfaulted_asInteger (value : Value) (operation : String) :
    Unfaulted (value.asInteger operation) := by
  unfold Value.asInteger
  split
  · trivial
  · exact not_false

/-! ## Methods -/

theorem ListMethod.unfaulted_perform (method : ListMethod) (receiver : Address)
    (arguments : Arguments) : (method.perform receiver arguments).Unfaulted := by
  have hindex (operation : String) : (perform.liftExcept ((arguments.nth 0).asInteger operation) :
      Attempt Heap Int64).Unfaulted := fun _ => (arguments.nth 0).unfaulted_asInteger operation
  cases method with
  | append => exact .bind (fun _ => trivial) fun _ => .pure _
  | pop => exact fun h => (h.list receiver).unfaulted_pop
  | insert =>
      refine (hindex _).bind fun index => .bind (fun h => ?_) fun _ => .pure _
      exact (h.list receiver).unfaulted_insert _ _
  | removeAt => exact (hindex _).bind fun index h => (h.list receiver).unfaulted_removeAt _
  | get => exact (hindex _).bind fun index h => (h.list receiver).unfaulted_get _
  | set =>
      refine (hindex _).bind fun index => .bind (fun h => ?_) fun _ => .pure _
      exact (h.list receiver).unfaulted_overwrite _ _
  | length => exact .reading fun _ => trivial
  | contains => exact .reading fun _ => trivial
  | indexOf =>
      refine .reading fun h => ?_
      split <;> trivial
  | clear => exact .bind (fun _ => trivial) fun _ => .pure _

theorem DictMethod.unfaulted_perform (method : DictMethod) (receiver : Address)
    (arguments : Arguments) : (method.perform receiver arguments).Unfaulted := by
  cases method with
  | get =>
      refine .reading fun h => ?_
      dsimp only
      split
      · exact h.unfaulted_lookupEntry _ _
      · refine (h.unfaulted_hasEntry _ _).bind fun found => ?_
        split
        · exact h.unfaulted_lookupEntry _ _
        · trivial
  | set =>
      intro h
      have hinsert := h.unfaulted_insertEntry (h.dict receiver) (arguments.nth 0) (arguments.nth 1)
      simp only [perform]
      rcases hresult : h.insertEntry (h.dict receiver) (arguments.nth 0) (arguments.nth 1)
        with err | table
      · rwa [hresult] at hinsert
      · trivial
  | remove => exact fun h => h.unfaulted_removeEntry _ _
  | has => exact .reading fun h => (h.unfaulted_hasEntry _ _).map _
  | keys => exact fun _ => trivial
  | values => exact fun _ => trivial
  | items => exact fun h => Heap.unfaulted_makePairs _ h
  | length => exact .reading fun _ => trivial
  | clear => exact fun _ => trivial

end ScriptCore
