import ScriptCore.Method.Dict
import ScriptCore.Method.List
import ScriptCore.Operation
import ScriptCore.Proofs.Attempt
import ScriptCore.Struct

/-!
# Heaps that differ in their functions

Two heaps are alike if they hold the same containers, and functions that differ at most in the
scopes they were defined in and in the marks they carry.  No operation of a program tells such heaps
apart, except for reading the mark and showing a function.

Work that does not look at functions is the same work when they are exchanged for others
(`agrees_of_blind`), and most operations are of this kind.  Work that looks at a function reads its
name, its parameters or its documentation, which are alike, or shows it.  Only showing a function
gives away its mark, so whoever compares two runs has to stop there.

The scopes of corresponding functions are related by `pairs` if the functions are usable.  Those of
the others may be gone, on one side or on both.
-/

namespace ScriptCore

open Attempt

/-- Callables that differ at most in the scope of a closure; the scopes correspond. -/
inductive Callable.Alike (pairs : RecordId → RecordId → Prop) : Callable → Callable → Prop
  | native {callable : Callable} (hnative : callable.isNative = true) :
      Alike pairs callable callable
  | closure {scope scope' : RecordId} (body : Expr) (hscope : pairs scope scope') :
      Alike pairs (.closure scope body) (.closure scope' body)

/-- Functions that differ at most in the scope and the mark. -/
structure Function.Alike (pairs : RecordId → RecordId → Prop) (f f' : Function) : Prop where
  name : f'.name = f.name
  parameters : f'.parameters = f.parameters
  callable : f.callable.Alike pairs f'.callable
  doc : f'.doc = f.doc

variable {usable : Value → Prop} {pairs : RecordId → RecordId → Prop}

theorem Callable.Alike.mono {callable callable' : Callable}
    (halike : callable.Alike pairs callable')
    {wider : RecordId → RecordId → Prop} (hwider : ∀ id id', pairs id id' → wider id id') :
    callable.Alike wider callable' := by
  cases halike with
  | native hnative => exact .native hnative
  | closure body hscope => exact .closure body (hwider _ _ hscope)

theorem Callable.Alike.isNative {callable callable' : Callable}
    (halike : callable.Alike pairs callable') : callable'.isNative = callable.isNative := by
  cases halike with
  | native hnative => rfl
  | closure body hscope => rfl

namespace Heap

/-- Heaps with the same containers and with functions that are alike; only of functions that can be
used the scopes have to correspond. -/
structure Alike (usable : Value → Prop) (pairs : RecordId → RecordId → Prop)
    (h h' : Heap) : Prop where
  lists : h'.lists = h.lists
  dicts : h'.dicts = h.dicts
  modules : h'.modules = h.modules
  structs : h'.structs = h.structs
  size : h'.functions.size = h.functions.size
  function : ∀ address, (h.function address).Alike
    (fun scope scope' => usable (.function address) → pairs scope scope') (h'.function address)

/-- The heap with other functions. -/
def withFunctions (h : Heap) (functions : Array Function) : Heap :=
  { h with functions }

variable {h h' : Heap}

theorem Alike.eq_withFunctions (hh : h.Alike usable pairs h') :
    h' = h.withFunctions h'.functions := by
  rw [withFunctions, ← hh.lists, ← hh.dicts, ← hh.modules, ← hh.structs]

theorem Alike.mono (hh : h.Alike usable pairs h') {wider : RecordId → RecordId → Prop}
    (hwider : ∀ address scope scope' body, usable (.function address) →
      (h'.function address).callable = .closure scope' body → pairs scope scope' →
      wider scope scope') : h.Alike usable wider h' where
  lists := hh.lists
  dicts := hh.dicts
  modules := hh.modules
  structs := hh.structs
  size := hh.size
  function address := {
    name := (hh.function address).name
    parameters := (hh.function address).parameters
    callable := by
      have halike := (hh.function address).callable
      -- Both callables are made variables first, for `cases` to see that they are of one form.
      generalize (h.function address).callable = callable at halike ⊢
      generalize hcallable : (h'.function address).callable = callable' at halike ⊢
      cases halike with
      | native hnative => exact .native hnative
      | closure body hscope =>
          exact .closure body fun husable =>
            hwider address _ _ body husable hcallable (hscope husable)
    doc := (hh.function address).doc }

/-! ## Reading -/

theorem equalsWithin_withFunctions (h : Heap) (functions : Array Function) (levels : Nat)
    (comparing : List (Value × Value)) (left right : Value) :
    (h.withFunctions functions).equalsWithin levels comparing left right =
      h.equalsWithin levels comparing left right := by
  induction levels generalizing comparing left right with
  | zero => rfl
  -- Functions are equal if they stand at the same address, so no level looks at them.
  | succ levels ih =>
      have hheads : (h.withFunctions functions).compareHeads left right =
          h.compareHeads left right := rfl
      simp only [equalsWithin, hheads, ih]

theorem equals_withFunctions (h : Heap) (functions : Array Function) (left right : Value) :
    (h.withFunctions functions).equals left right = h.equals left right :=
  equalsWithin_withFunctions h functions _ _ left right

theorem shallowText_withFunctions (h : Heap) (functions : Array Function) {value : Value}
    (hvalue : value.tag ≠ .function) :
    (h.withFunctions functions).shallowText value = h.shallowText value := by
  cases value <;> first | rfl | exact absurd rfl hvalue

theorem contentText_congr (h : Heap) (functions : Array Function) (container : Container)
    {text text' : Value → String}
    (hsame : ∀ value ∈ h.shownContents container, text' value = text value) :
    (h.withFunctions functions).contentText container text' = h.contentText container text := by
  cases container with
  | list address =>
      have htexts : (h.list address).toList.map text' = (h.list address).toList.map text :=
        List.map_congr_left hsame
      exact congrArg (fun texts => "[" ++ ", ".intercalate texts ++ "]") htexts
  | dict address =>
      have htexts : ((h.dict address).entries.map fun entry =>
        text' entry.1 ++ ": " ++ text' entry.2) =
          (h.dict address).entries.map fun entry => text entry.1 ++ ": " ++ text entry.2 := by
        refine List.map_congr_left fun entry hentry => ?_
        have hmem : ∀ value ∈ [entry.1, entry.2], text' value = text value := fun value hvalue =>
          hsame value (List.mem_flatMap.2 ⟨entry, hentry, hvalue⟩)
        simp [hmem entry.1, hmem entry.2]
      exact congrArg (fun texts => "\x7b" ++ ", ".intercalate texts ++ "\x7d") htexts
  | struct address =>
      have htexts : ((h.struct address).fields.entries.map fun entry =>
        entry.1 ++ "=" ++ text' entry.2) =
          (h.struct address).fields.entries.map fun entry => entry.1 ++ "=" ++ text entry.2 := by
        refine List.map_congr_left fun entry hentry => ?_
        simp [hsame entry.2 (List.mem_map.2 ⟨entry, hentry, rfl⟩)]
      exact congrArg (fun texts => h.structName address ++ "(" ++ ", ".intercalate texts ++ ")")
        htexts
  | module address => rfl

/-- A text that shows no function is the same whatever the functions. -/
theorem renderWithin_withFunctions (h : Heap) (functions : Array Function) (levels : Nat)
    (enclosing : List Container) (value : Value)
    (hshows : h.showsWithin levels enclosing value = false) :
    (h.withFunctions functions).renderWithin levels enclosing value =
      h.renderWithin levels enclosing value := by
  induction levels generalizing enclosing value with
  | zero => exact h.shallowText_withFunctions functions (by simpa [showsWithin] using hshows)
  | succ levels ih =>
      simp only [renderWithin, showsWithin] at hshows ⊢
      cases hshown : shown? value with
      | none =>
          simp only [hshown] at hshows ⊢
          exact h.shallowText_withFunctions functions (by simpa using hshows)
      | some container =>
          simp only [hshown] at hshows ⊢
          split
          -- A container inside itself is shown by its kind alone.
          · refine h.shallowText_withFunctions functions fun htag => ?_
            cases value <;> simp [Value.tag, shown?] at htag hshown
          · rename_i hnot
            simp only [hnot, not_false_eq_true, decide_true, Bool.true_and, List.any_eq_false,
              Bool.not_eq_true] at hshows
            exact h.contentText_congr functions container fun inner hinner =>
              ih _ inner (hshows inner hinner)

theorem plainText_withFunctions (h : Heap) (functions : Array Function) {value : Value}
    (hshows : h.showsFunction value = false) :
    (h.withFunctions functions).plainText value = h.plainText value := by
  cases value with
  | string text => rfl
  | _ => exact h.renderWithin_withFunctions functions _ _ _ hshows

theorem Alike.key (hh : h.Alike usable pairs h') (value : Value) : h'.key value = h.key value := by
  have htext : h'.keyText? value = h.keyText? value := by
    rw [hh.eq_withFunctions]
    cases value with
    | function address =>
        have hname := (hh.function address).name
        rw [Heap.function, hh.eq_withFunctions] at hname
        exact congrArg (fun name => some ("f:" ++ name ++ "#" ++ addressText address)) hname
    | _ => rfl
  rw [Heap.key, Heap.key, htext]

theorem Alike.equals (hh : h.Alike usable pairs h') (left right : Value) :
    h'.equals left right = h.equals left right := by
  rw [hh.eq_withFunctions]
  exact h.equals_withFunctions _ left right

theorem Alike.truthy (hh : h.Alike usable pairs h') (value : Value) :
    h'.isTruthy value = h.isTruthy value := by
  rw [hh.eq_withFunctions]
  rfl

theorem Alike.applyUnary (hh : h.Alike usable pairs h') (operator : UnaryOperator)
    (operand : Value) :
    h'.applyUnary operator operand = h.applyUnary operator operand := by
  rw [hh.eq_withFunctions]
  rfl

theorem Alike.plainText (hh : h.Alike usable pairs h') {value : Value}
    (hshows : h.showsFunction value = false) : h'.plainText value = h.plainText value := by
  rw [hh.eq_withFunctions]
  exact h.plainText_withFunctions _ hshows

/-! ## Operations that leave the functions alone -/

/-- An operation that neither looks at the functions nor changes them does not tell heaps that are
alike apart. -/
theorem agrees_of_blind {α : Type} {attempt : Attempt Heap α}
    (hblind : ∀ h functions, attempt (h.withFunctions functions) =
      ((attempt h).1, (attempt h).2.withFunctions functions)) :
    attempt.Agrees (Alike usable pairs) := by
  intro h h' hh
  have hsame : (attempt h).2.functions = h.functions :=
    congrArg (fun result => result.2.functions) (hblind h h.functions)
  rw [hh.eq_withFunctions, hblind]
  refine ⟨rfl, rfl, rfl, rfl, rfl, ?_, fun address => ?_⟩
  · rw [hsame]
    exact hh.size
  · have hfunction := hh.function address
    rwa [Heap.function, ← hsame] at hfunction

theorem agrees_makeList (items : List Value) : (makeList items).Agrees (Alike usable pairs) :=
  agrees_of_blind fun _ _ => rfl

theorem agrees_onList {α : Type} (address : Address)
    (step : ResizableArray Value → Except RuntimeError α × ResizableArray Value) :
    (onList address step).Agrees (Alike usable pairs) :=
  agrees_of_blind fun _ _ => rfl

theorem agrees_applyBinary (operator : BinaryOperator) (left right : Value) :
    (applyBinary operator left right).Agrees (Alike usable pairs) := by
  have harithmetic : ∀ operator, (arithmetic operator left right).Agrees (Alike usable pairs) :=
    fun operator => agrees_of_blind fun h functions => by
      unfold arithmetic
      split
      · rfl
      · split
        · rfl
        · split <;> rfl
  -- Equality compares what the heaps have in common; order and arithmetic do not look at functions.
  cases operator with
  | equal => exact .reading fun h h' hh => by rw [hh.equals]
  | notEqual => exact .reading fun h h' hh => by rw [hh.equals]
  | and => exact agrees_of_blind fun _ _ => rfl
  | or => exact agrees_of_blind fun _ _ => rfl
  | less => exact agrees_of_blind fun _ _ => rfl
  | lessEqual => exact agrees_of_blind fun _ _ => rfl
  | greater => exact agrees_of_blind fun _ _ => rfl
  | greaterEqual => exact agrees_of_blind fun _ _ => rfl
  | add => exact harithmetic _
  | subtract => exact harithmetic _
  | multiply => exact harithmetic _
  | divide => exact harithmetic _
  | modulo => exact harithmetic _

theorem agrees_setAttribute (target : Value) (name : String) (value : Value) :
    (setAttribute target name value).Agrees (Alike usable pairs) := by
  refine agrees_of_blind fun h functions => ?_
  cases target with
  | struct address =>
      simp only [setAttribute]
      by_cases hcontains : (h.struct address).fields.contains name
      · have hcontains' : ((h.withFunctions functions).struct address).fields.contains name :=
          hcontains
        simp only [hcontains, hcontains', if_true]
        rfl
      · have hcontains' : ¬ ((h.withFunctions functions).struct address).fields.contains name :=
          hcontains
        simp only [hcontains, hcontains']
        rfl
  | _ => rfl

theorem agrees_instantiate (address : Address) (arguments : Arguments) :
    (instantiate address arguments).Agrees (Alike usable pairs) := by
  refine agrees_of_blind fun h functions => ?_
  have hmodule : (h.withFunctions functions).module address = h.module address := rfl
  simp only [instantiate, hmodule]
  split
  · rfl
  · split <;> rfl

/-! ## Dicts -/

theorem Alike.dict (hh : h.Alike usable pairs h') (address : Address) :
    h'.dict address = h.dict address := by
  rw [hh.eq_withFunctions]
  rfl

theorem Alike.setDict (hh : h.Alike usable pairs h') (address : Address) (table : DictTable) :
    (h.setDict address table).Alike usable pairs (h'.setDict address table) :=
  ((agrees_of_blind fun _ _ => rfl :
    Agrees (Alike usable pairs) fun h => (.ok (), h.setDict address table)) h h' hh).2

theorem Alike.insertEntry (hh : h.Alike usable pairs h') (table : DictTable) (key value : Value) :
    h'.insertEntry table key value = h.insertEntry table key value := by
  rw [Heap.insertEntry, Heap.insertEntry, hh.key]

theorem Alike.lookupEntry (hh : h.Alike usable pairs h') (table : DictTable) (key : Value) :
    h'.lookupEntry table key = h.lookupEntry table key := by
  rw [Heap.lookupEntry, Heap.lookupEntry, hh.key]

theorem Alike.hasEntry (hh : h.Alike usable pairs h') (table : DictTable) (key : Value) :
    h'.hasEntry table key = h.hasEntry table key := by
  rw [Heap.hasEntry, Heap.hasEntry, hh.key]

theorem agrees_dictOf (entries : List (Value × Value)) :
    (dictOf entries).Agrees (Alike usable pairs) := by
  intro h h' hh
  have htable : h'.tableOf entries = h.tableOf entries := by
    rw [tableOf, tableOf]
    exact congrArg (fun step => entries.foldlM step .empty)
      (funext fun table => funext fun entry => hh.insertEntry table entry.1 entry.2)
  simp only [dictOf, htable]
  cases h.tableOf entries with
  | error err => exact ⟨rfl, hh⟩
  | ok table => exact (agrees_of_blind fun _ _ => rfl :
      Agrees (Alike usable pairs) fun h => (.ok (h.newDict table).1, (h.newDict table).2)) h h' hh

/-! ## Functions -/

theorem Alike.setFunction (hh : h.Alike usable pairs h') (address : Address) (f f' : Function)
    (hf : f.Alike (fun scope scope' => usable (.function address) → pairs scope scope') f') :
    (h.setFunction address f).Alike usable pairs (h'.setFunction address f') where
  lists := hh.lists
  dicts := hh.dicts
  modules := hh.modules
  structs := hh.structs
  size := by simpa [Heap.setFunction] using hh.size
  function other := by
    have hother := hh.function other
    simp only [Heap.function, Heap.setFunction, Array.getD_eq_getD_getElem?,
      Array.getElem?_setIfInBounds, hh.size] at hother ⊢
    split
    · subst other
      -- Where no function was made nothing is exchanged.
      split
      · exact hf
      · rename_i hge
        have hsize := hh.size
        rwa [Array.getElem?_eq_none (by omega), Array.getElem?_eq_none (by omega)] at hother
    · exact hother

theorem setFunction_function (h : Heap) (address : Address) :
    h.setFunction address (h.function address) = h := by
  have hsame : h.functions.setIfInBounds address (h.functions.getD address default) =
      h.functions := by
    refine Array.ext_getElem? fun index => ?_
    rw [Array.getElem?_setIfInBounds, Array.getD_eq_getD_getElem?]
    split
    · subst index
      split
      · simp [*]
      · rw [Array.getElem?_eq_none (by omega)]
    · rfl
  rw [setFunction, Heap.function, hsame]

/-- The heap with a function marked. -/
def marked (h : Heap) (address : Address) : Heap :=
  h.setFunction address { h.function address with tailCallOptimized := true }

/-- Marks may be set on one side only. -/
theorem Alike.marked_left (hh : h.Alike usable pairs h') (address : Address) :
    (h.marked address).Alike usable pairs h' := by
  obtain ⟨hname, hparameters, hcallable, hdoc⟩ := hh.function address
  have hset := hh.setFunction address { h.function address with tailCallOptimized := true }
    (h'.function address) ⟨hname, hparameters, hcallable, hdoc⟩
  rwa [setFunction_function] at hset

theorem Alike.marked_right (hh : h.Alike usable pairs h') (address : Address) :
    h.Alike usable pairs (h'.marked address) := by
  obtain ⟨hname, hparameters, hcallable, hdoc⟩ := hh.function address
  have hset := hh.setFunction address (h.function address)
    { h'.function address with tailCallOptimized := true } ⟨hname, hparameters, hcallable, hdoc⟩
  rwa [setFunction_function] at hset

theorem Alike.newFunction (hh : h.Alike usable pairs h') (name : String) (parameters : Parameters)
    {callable callable' : Callable} (hcallable : callable.Alike pairs callable') :
    (h'.newFunction name parameters callable').1 = (h.newFunction name parameters callable).1 ∧
      (h.newFunction name parameters callable).2.Alike usable pairs
        (h'.newFunction name parameters callable').2 := by
  refine ⟨congrArg Value.function hh.size, hh.lists, hh.dicts, hh.modules, hh.structs, ?_, ?_⟩
  · simpa [Heap.newFunction] using hh.size
  · intro other
    have hother := hh.function other
    simp only [Heap.function, Heap.newFunction, Array.getD_eq_getD_getElem?, Array.getElem?_push,
      hh.size] at hother ⊢
    split
    · exact ⟨rfl, rfl, hcallable.mono fun _ _ hpair _ => hpair, rfl⟩
    · exact hother

theorem agrees_boundMethod (name : String) (parameters : Parameters) {callable : Callable}
    (hnative : callable.isNative = true) :
    (boundMethod name parameters callable).Agrees (Alike usable pairs) := by
  intro h h' hh
  obtain ⟨hvalue, hafter⟩ := hh.newFunction name parameters (.native hnative)
  exact ⟨congrArg Except.ok hvalue, hafter⟩

/-- Reading an attribute does not tell heaps that are alike apart, unless the attribute is the mark
of a function. -/
theorem agrees_getAttribute {value : Value} {name : String}
    (hmark : ¬ (value.tag = .function ∧ name = "tail_call_optimized")) :
    (getAttribute value name).Agrees (Alike usable pairs) := by
  cases value with
  | list address =>
      simp only [getAttribute]
      split
      · exact agrees_boundMethod _ _ rfl
      · exact .throw _
  | dict address =>
      simp only [getAttribute]
      split
      · exact agrees_boundMethod _ _ rfl
      · exact .throw _
  | error label message =>
      simp only [getAttribute]
      split
      · exact .pure _
      · exact .throw _
  | function address =>
      refine .reading fun h h' hh => ?_
      -- Name, parameters and documentation are the same on both sides, and so is all but the mark.
      have hsame : functionAttribute (h'.function address) name =
          functionAttribute (h.function address) name := by
        obtain ⟨hname, hparameters, -, hdoc⟩ := hh.function address
        have hother : name ≠ "tail_call_optimized" := fun hname => hmark ⟨rfl, hname⟩
        unfold functionAttribute
        split <;> simp_all
      simp only [hsame]
  | _ => exact agrees_of_blind fun _ _ => rfl

theorem agrees_setDoc (target : Value) (text : String) :
    (setDoc target text).Agrees (Alike usable pairs) := by
  cases target with
  | function address =>
      intro h h' hh
      obtain ⟨hname, hparameters, hcallable, -⟩ := hh.function address
      exact ⟨rfl, hh.setFunction address _ _ ⟨hname, hparameters, hcallable, rfl⟩⟩
  | _ => exact agrees_of_blind fun _ _ => rfl

end Heap

/-! ## Methods -/

open Heap

theorem ListMethod.agrees_call (method : ListMethod) (receiver : Address) (arguments : Arguments) :
    (method.call receiver arguments).Agrees (Heap.Alike usable pairs) := by
  refine .bind (agrees_of_blind fun _ _ => rfl) fun _ => ?_
  -- Only the search compares elements, and comparing does not look at the functions.
  have hindexOf : ∀ h h' : Heap, h.Alike usable pairs h' → ∀ needle,
      h'.indexOf? receiver needle = h.indexOf? receiver needle := by
    intro h h' hh needle
    have hlist : h'.list receiver = h.list receiver := by rw [Heap.list, hh.lists, Heap.list]
    rw [indexOf?, indexOf?, hlist]
    exact congrArg _ (funext fun item => hh.equals item needle)
  cases method with
  | append => exact .bind (agrees_onList _ _) fun _ => .pure _
  | pop => exact agrees_onList _ _
  | insert =>
      exact .bind (agrees_of_blind fun _ _ => rfl) fun _ =>
        .bind (agrees_onList _ _) fun _ => .pure _
  | removeAt => exact .bind (agrees_of_blind fun _ _ => rfl) fun _ => agrees_onList _ _
  | get => exact .bind (agrees_of_blind fun _ _ => rfl) fun _ => agrees_of_blind fun _ _ => rfl
  | set =>
      exact .bind (agrees_of_blind fun _ _ => rfl) fun _ =>
        .bind (agrees_onList _ _) fun _ => .pure _
  | length => exact agrees_of_blind fun _ _ => rfl
  | contains => exact .reading fun h h' hh => by rw [hindexOf h h' hh]
  | indexOf => exact .reading fun h h' hh => by rw [hindexOf h h' hh]
  | clear => exact .bind (agrees_onList _ _) fun _ => .pure _

theorem DictMethod.agrees_call (method : DictMethod) (receiver : Address) (arguments : Arguments) :
    (method.call receiver arguments).Agrees (Heap.Alike usable pairs) := by
  refine .bind (agrees_of_blind fun _ _ => rfl) fun _ => ?_
  cases method with
  | get =>
      refine .reading fun h h' hh => ?_
      simp only [hh.dict, hh.lookupEntry, hh.hasEntry]
  | set =>
      intro h h' hh
      simp only [DictMethod.perform, hh.dict, hh.insertEntry]
      split
      · exact ⟨rfl, hh⟩
      · exact ⟨rfl, hh.setDict _ _⟩
  | remove =>
      intro h h' hh
      simp only [DictMethod.perform, hh.dict, removeEntry, hh.key]
      exact ⟨trivial, hh.setDict _ _⟩
  | has => exact .reading fun h h' hh => by rw [hh.dict, hh.hasEntry]
  | keys =>
      intro h h' hh
      simp only [DictMethod.perform, hh.dict]
      exact agrees_makeList _ h h' hh
  | values =>
      intro h h' hh
      simp only [DictMethod.perform, hh.dict]
      exact agrees_makeList _ h h' hh
  | items =>
      intro h h' hh
      simp only [DictMethod.perform, hh.dict]
      exact Agrees.bind (.mapM _ fun _ => agrees_makeList _) (fun _ => agrees_makeList _) h h' hh
  | length => exact .reading fun h h' hh => by rw [hh.dict]
  | clear =>
      intro h h' hh
      simp only [DictMethod.perform, hh.dict]
      exact ⟨trivial, hh.setDict _ _⟩

end ScriptCore
