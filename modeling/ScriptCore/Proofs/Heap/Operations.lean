import ScriptCore.Method.Dict
import ScriptCore.Method.List
import ScriptCore.Operation
import ScriptCore.Proofs.Heap.Contents
import ScriptCore.Struct

/-!
# What programs do to the heap

Every operation on the heap keeps it sound and gives a usable value or an error of the program, as
long as what it is given is usable.

`Keeps` says this of a computation: from a sound heap it leads to a sound heap, whatever its
outcome, and its outcome is calm.  The statements go from the operators to attributes, the making of
structs and the methods of lists and dicts.  What an operation takes out of a container is usable
because the container was; what it makes is usable because it is new.

Nothing here speaks of scopes.  No operation on the heap makes a closure, so the set of captured
records is carried along as it is.
-/

namespace ScriptCore

open Attempt

variable {usable : Value → Prop} {captured : RecordId → Prop}

namespace Heap

variable {h : Heap}

/-! ## Operators -/

theorem Sound.calm_applyUnary (hh : h.Sound usable captured) (operator : UnaryOperator)
    (operand : Value) : Calm usable (h.applyUnary operator operand) := by
  unfold applyUnary
  split
  · exact hh.unmade _ not_false
  · exact hh.unmade _ not_false
  · exact hh.unmade _ not_false
  · exact nofun

theorem keeps_makeList {items : List Value} (hitems : ∀ value ∈ items, usable value) :
    Keeps (Heap.Sound usable captured) usable (makeList items) :=
  fun _ hh => hh.newList hitems

theorem calm_onIntegers (operator : BinaryOperator) (left right : Int64) :
    Calm (fun _ => True) (operator.onIntegers left right) := by
  unfold BinaryOperator.onIntegers
  split
  · trivial
  · trivial
  · trivial
  · split
    · exact nofun
    · trivial
  · split
    · exact nofun
    · trivial

theorem keeps_arithmetic (operator : BinaryOperator) {left right : Value} (hleft : usable left)
    (hright : usable right) :
    Keeps (Heap.Sound usable captured) usable (arithmetic operator left right) := by
  intro h hh
  unfold arithmetic
  split
  · exact ⟨hh, (calm_onIntegers _ _ _).map fun _ _ => hh.unmade _ not_false⟩
  · split
    · exact ⟨hh, hh.unmade _ not_false⟩
    · split
      · exact ⟨hh, hh.unmade _ not_false⟩
      · -- Two lists are joined into a new one; all other outcomes hold nothing.
        obtain ⟨items, hitems, hall⟩ := hh.list _ hleft
        obtain ⟨others, hothers, hall'⟩ := hh.list _ hright
        refine hh.newList fun value hvalue => ?_
        rw [hitems.toList_eq, hothers.toList_eq] at hvalue
        rcases List.mem_append.1 hvalue with hitem | hother
        · exact hall value hitem
        · exact hall' value hother
      · exact ⟨hh, nofun⟩

theorem calm_ordering (operator : BinaryOperator) (left right : Value) :
    Calm (fun _ => True) (ordering operator left right) := by
  unfold ordering
  split
  · trivial
  · exact nofun

theorem keeps_applyBinary (operator : BinaryOperator) {left right : Value} (hleft : usable left)
    (hright : usable right) :
    Keeps (Heap.Sound usable captured) usable (applyBinary operator left right) := by
  have hboolean : ∀ h : Heap, h.Sound usable captured → ∀ truth, usable (.boolean truth) :=
    fun h hh truth => hh.unmade _ not_false
  have horder : ∀ operator, Keeps (Heap.Sound usable captured) usable
      (.reading fun _ => (ordering operator left right).map .boolean) := fun operator =>
    .reading fun h hh => (calm_ordering operator left right).map fun truth _ => hboolean h hh truth
  cases operator with
  | equal => exact .reading fun h hh => hboolean h hh _
  | notEqual => exact .reading fun h hh => hboolean h hh _
  | and => exact .reading fun h hh => hboolean h hh _
  | or => exact .reading fun h hh => hboolean h hh _
  | less => exact horder _
  | lessEqual => exact horder _
  | greater => exact horder _
  | greaterEqual => exact horder _
  | add => exact keeps_arithmetic _ hleft hright
  | subtract => exact keeps_arithmetic _ hleft hright
  | multiply => exact keeps_arithmetic _ hleft hright
  | divide => exact keeps_arithmetic _ hleft hright
  | modulo => exact keeps_arithmetic _ hleft hright

theorem keeps_dictOf {entries : List (Value × Value)}
    (hentries : ∀ entry ∈ entries, usable entry.1 ∧ usable entry.2) :
    Keeps (Heap.Sound usable captured) usable (dictOf entries) := by
  intro h hh
  have htable := h.calm_tableOf hentries
  unfold dictOf
  split
  · rename_i err herr
    rw [herr] at htable
    exact ⟨hh, htable⟩
  · rename_i table hmade
    rw [hmade] at htable
    obtain ⟨rows, hrows, hall⟩ := htable
    exact hh.newDict hrows hall

/-! ## Attributes -/

theorem usable_functionAttribute (hh : h.Sound usable captured) {function : Function}
    {name : String} {value : Value} (hfound : functionAttribute function name = some value) :
    usable value := by
  unfold functionAttribute at hfound
  split at hfound
  · exact Option.some.inj hfound ▸ hh.unmade _ not_false
  · obtain rfl := Option.some.inj hfound
    cases function.doc <;> exact hh.unmade _ not_false
  · exact Option.some.inj hfound ▸ hh.unmade _ not_false
  · exact Option.some.inj hfound ▸ hh.unmade _ not_false
  · cases hfound

theorem usable_errorAttribute (hh : h.Sound usable captured) {label message name : String}
    {value : Value} (hfound : errorAttribute label message name = some value) : usable value := by
  unfold errorAttribute at hfound
  split at hfound
  · exact Option.some.inj hfound ▸ hh.unmade _ not_false
  · exact Option.some.inj hfound ▸ hh.unmade _ not_false
  · cases hfound

theorem keeps_boundMethod {name : String} {parameters : Parameters} {callable : Callable}
    (hparameters : parameters.Fit usable)
    (hreceiver : ∀ receiver, callable.receiver? = some receiver → usable receiver)
    (hscope : callable.scope? = none) (hhost : ∀ routine, callable ≠ .host routine) :
    Keeps (Heap.Sound usable captured) usable (boundMethod name parameters callable) := by
  intro h hh
  refine hh.newFunction name parameters callable ?_
  exact {
    parameters := hparameters
    scope := by
      intro scope body hcallable
      obtain rfl : callable = .closure scope body := hcallable
      cases hscope
    body := by
      intro scope body hcallable
      obtain rfl : callable = .closure scope body := hcallable
      cases hscope
    receiver := hreceiver
    host := fun routine hcallable => absurd hcallable (hhost routine) }

theorem fit_methodParameters (hnull : usable .null) (required optional : List String) :
    (Parameters.ofList ((required.map fun name => (name, .required)) ++
      optional.map fun name => (name, .value .null))).Fit usable := by
  refine Parameters.fit_ofList fun name value hmem => ?_
  rcases List.mem_append.1 hmem with hrequired | hoptional
  · obtain ⟨_, _, heq⟩ := List.mem_map.1 hrequired
    cases heq
  · obtain ⟨_, _, heq⟩ := List.mem_map.1 hoptional
    cases heq
    exact hnull

theorem keeps_getAttribute {value : Value} (hvalue : usable value) (name : String) :
    Keeps (Heap.Sound usable captured) usable (getAttribute value name) := by
  intro h hh
  have hnull : usable .null := hh.unmade _ not_false
  cases value with
  | module address =>
      refine ⟨hh, ?_⟩
      change Calm usable (h.moduleAttribute address name)
      unfold moduleAttribute
      split
      · rename_i found hfound
        have hmodule := hh.module address hvalue
        exact hmodule.attributes found (hmodule.valid.mem_values_iff.2 ⟨name, hfound⟩)
      · exact nofun
  | struct address =>
      refine ⟨hh, ?_⟩
      change Calm usable (h.structField address name)
      unfold structField
      split
      · rename_i found hfound
        obtain ⟨hvalid, hfields⟩ := hh.struct address hvalue
        exact hfields found (hvalid.mem_values_iff.2 ⟨name, hfound⟩)
      · exact nofun
  | list address =>
      cases hmethod : ListMethod.ofName? name with
      | none =>
          simp only [getAttribute, hmethod]
          exact ⟨hh, nofun⟩
      | some method =>
          simp only [getAttribute, hmethod]
          refine keeps_boundMethod ?_ (fun receiver hreceiver => ?_) rfl (fun _ => by simp) h hh
          · simpa [ListMethod.parameters, Parameters.required] using
              fit_methodParameters hnull method.parameterNames []
          · exact Option.some.inj hreceiver ▸ hvalue
  | dict address =>
      cases hmethod : DictMethod.ofName? name with
      | none =>
          simp only [getAttribute, hmethod]
          exact ⟨hh, nofun⟩
      | some method =>
          simp only [getAttribute, hmethod]
          refine keeps_boundMethod ?_ (fun receiver hreceiver => ?_) rfl (fun _ => by simp) h hh
          · exact fit_methodParameters hnull method.requiredNames method.optionalNames
          · exact Option.some.inj hreceiver ▸ hvalue
  | error label message =>
      cases hfound : errorAttribute label message name with
      | none =>
          simp only [getAttribute, hfound]
          exact ⟨hh, nofun⟩
      | some found =>
          simp only [getAttribute, hfound]
          exact ⟨hh, usable_errorAttribute hh hfound⟩
  | function address =>
      refine Keeps.reading (fun h hh => ?_) h hh
      split
      · rename_i found hfound
        exact usable_functionAttribute hh hfound
      · exact nofun
  | _ => exact ⟨hh, nofun⟩

theorem keeps_setAttribute {target value : Value} (htarget : usable target) (name : String)
    (hvalue : usable value) :
    Keeps (Heap.Sound usable captured) (fun _ => True) (setAttribute target name value) := by
  intro h hh
  cases target with
  | module address =>
      have hmodule := hh.module address htarget
      refine ⟨hh.setModule address ?_, trivial⟩
      exact {
        valid := (hmodule.valid.set name value).1
        attributes := by
          intro found hfound
          rcases hmodule.valid.mem_values_set hfound with rfl | hbefore
          · exact hvalue
          · exact hmodule.attributes found hbefore
        template := hmodule.template }
  | struct address =>
      obtain ⟨hvalid, hfields⟩ := hh.struct address htarget
      simp only [setAttribute]
      split
      · refine ⟨hh.setStruct address (hvalid.set name value).1 fun found hfound => ?_, trivial⟩
        rcases hvalid.mem_values_set hfound with rfl | hbefore
        · exact hvalue
        · exact hfields found hbefore
      · exact ⟨hh, nofun⟩
  | _ => exact ⟨hh, nofun⟩

theorem keeps_setDoc {target : Value} (htarget : usable target) (text : String) :
    Keeps (Heap.Sound usable captured) (fun _ => True) (setDoc target text) := by
  intro h hh
  cases target with
  | module address =>
      exact ⟨hh.setModule address { hh.module address htarget with }, trivial⟩
  | function address =>
      exact ⟨hh.setFunction address { hh.function address htarget with }, trivial⟩
  | _ => exact ⟨hh, nofun⟩

theorem keeps_instantiate {address : Address} (haddress : usable (.module address))
    {arguments : Arguments} (hfit : arguments.Fit usable) :
    Keeps (Heap.Sound usable captured) usable (instantiate address arguments) := by
  intro h hh
  unfold instantiate
  dsimp only
  split
  · exact ⟨hh, nofun⟩
  · rename_i template htemplate
    have hbound := ((hh.module address haddress).template template htemplate).calm_bind
      (h.module address).name hfit
    split
    · rename_i err herr
      rw [herr] at hbound
      exact ⟨hh, hbound⟩
    · rename_i fields hfields
      rw [hfields] at hbound
      -- Binding gave usable values, and the table of the fields holds no others.
      obtain ⟨hvalid, hvalues⟩ := NameTable.valid_ofList fields
      refine hh.newStruct hvalid fun value hvalue => ?_
      obtain ⟨entry, hentry, rfl⟩ := List.mem_map.1 (hvalues value hvalue)
      exact hbound entry hentry

/-! ## Methods of lists and dicts -/

theorem keeps_onList {α : Type} {good : α → Prop} {address : Address}
    {step : ResizableArray Value → Except RuntimeError α × ResizableArray Value}
    (haddress : usable (.list address)) (hstep : ResizableArray.StepKeeps usable good step) :
    Keeps (Heap.Sound usable captured) good (onList address step) := by
  intro h hh
  obtain ⟨items, hitems, hall⟩ := hh.list address haddress
  obtain ⟨⟨after, hafter, hall'⟩, hcalm⟩ := hstep _ items hitems hall
  exact ⟨hh.setList address hafter hall', hcalm⟩

theorem keeps_makePairs {pairs : List (Value × Value)}
    (hpairs : ∀ pair ∈ pairs, usable pair.1 ∧ usable pair.2) :
    Keeps (Heap.Sound usable captured) usable (makePairs pairs) := by
  refine Keeps.bind (Keeps.mapM pairs fun pair hpair => keeps_makeList ?_) fun values hvalues =>
    keeps_makeList hvalues
  simpa using hpairs pair hpair

end Heap

open Heap

theorem calm_asInteger (value : Value) (operation : String) :
    Calm (fun _ => True) (value.asInteger operation) := by
  unfold Value.asInteger
  split
  · trivial
  · exact nofun

theorem ListMethod.keeps_perform (method : ListMethod) {receiver : Address}
    (hreceiver : usable (.list receiver)) {arguments : Arguments} (hfit : arguments.Fit usable)
    (hnull : usable .null) :
    Keeps (Heap.Sound usable captured) usable (method.perform receiver arguments) := by
  have hargument := hfit.nth hnull
  have hindex : Keeps (Heap.Sound usable captured) (fun _ => True)
      (ListMethod.perform.liftExcept ((arguments.nth 0).asInteger method.qualifiedName)) :=
    .reading fun _ _ => calm_asInteger _ _
  cases method with
  | append =>
      exact (keeps_onList hreceiver (ResizableArray.stepKeeps_append (hargument 0))).bind
        fun _ _ => .pure hnull
  | pop => exact keeps_onList hreceiver ResizableArray.stepKeeps_pop
  | insert =>
      refine hindex.bind fun index _ => ?_
      exact (keeps_onList hreceiver (ResizableArray.stepKeeps_insert _ (hargument 1))).bind
        fun _ _ => .pure hnull
  | removeAt =>
      refine hindex.bind fun index _ => ?_
      exact keeps_onList hreceiver (ResizableArray.stepKeeps_removeAt _)
  | get =>
      refine hindex.bind fun index _ => .reading fun h hh => ?_
      obtain ⟨items, hitems, hall⟩ := hh.list receiver hreceiver
      exact (hitems.calm_get _).mono hall
  | set =>
      refine hindex.bind fun index _ => ?_
      exact (keeps_onList hreceiver (ResizableArray.stepKeeps_overwrite _ (hargument 1))).bind
        fun _ _ => .pure hnull
  | length => exact .reading fun h hh => hh.unmade _ not_false
  | contains => exact .reading fun h hh => hh.unmade _ not_false
  | indexOf =>
      refine .reading fun h hh => ?_
      split
      · exact hh.unmade _ not_false
      · exact hnull
  | clear =>
      exact (keeps_onList hreceiver ResizableArray.stepKeeps_clear).bind fun _ _ => .pure hnull

theorem ListMethod.keeps_call (method : ListMethod) {receiver : Address}
    (hreceiver : usable (.list receiver)) {arguments : Arguments} (hfit : arguments.Fit usable)
    (hnull : usable .null) :
    Keeps (Heap.Sound usable captured) usable (method.call receiver arguments) :=
  Keeps.bind (.reading fun _ _ => arguments.calm_checkCount _ _ _) fun _ _ =>
    method.keeps_perform hreceiver hfit hnull

theorem DictMethod.keeps_perform (method : DictMethod) {receiver : Address}
    (hreceiver : usable (.dict receiver)) {arguments : Arguments} (hfit : arguments.Fit usable)
    (hnull : usable .null) :
    Keeps (Heap.Sound usable captured) usable (method.perform receiver arguments) := by
  have hargument := hfit.nth hnull
  have htable : ∀ h : Heap, h.Sound usable captured → DictTable.Sound usable (h.dict receiver) :=
    fun h hh => hh.dict receiver hreceiver
  cases method with
  | get =>
      refine .reading fun h hh => ?_
      dsimp only
      split
      · exact h.calm_lookupEntry (htable h hh) _
      · rename_i fallback hfallback
        -- With a fallback the key is looked for first, and the fallback is one of the arguments.
        refine (h.calm_hasEntry _ _).bind fun found _ => ?_
        split
        · exact h.calm_lookupEntry (htable h hh) _
        · exact hfit.positional _ (List.mem_of_getElem? hfallback)
  | set =>
      intro h hh
      have hinsert := h.calm_insertEntry (htable h hh) (hargument 0) (hargument 1)
      simp only [perform]
      split
      · rename_i err herr
        rw [herr] at hinsert
        exact ⟨hh, hinsert⟩
      · rename_i table hmade
        rw [hmade] at hinsert
        obtain ⟨rows, hrows, hall⟩ := hinsert
        exact ⟨hh.setDict receiver hrows hall, hnull⟩
  | remove =>
      intro h hh
      obtain ⟨⟨rows, hrows, hall⟩, hcalm⟩ :=
        Heap.Sound.removeEntry h (htable h hh) (arguments.nth 0)
      exact ⟨hh.setDict receiver hrows hall, hcalm⟩
  | has =>
      exact .reading fun h hh => (h.calm_hasEntry _ _).map fun _ _ => hh.unmade _ not_false
  | keys =>
      exact fun h hh => keeps_makeList (htable h hh).usable_of_mem.1 h hh
  | values =>
      exact fun h hh => keeps_makeList (htable h hh).usable_of_mem.2.1 h hh
  | items =>
      exact fun h hh => keeps_makePairs (htable h hh).usable_of_mem.2.2 h hh
  | length => exact .reading fun h hh => hh.unmade _ not_false
  | clear =>
      exact fun h hh => ⟨hh.setDict receiver HashTable.holds_empty (by simp), hnull⟩

theorem DictMethod.keeps_call (method : DictMethod) {receiver : Address}
    (hreceiver : usable (.dict receiver)) {arguments : Arguments} (hfit : arguments.Fit usable)
    (hnull : usable .null) :
    Keeps (Heap.Sound usable captured) usable (method.call receiver arguments) :=
  Keeps.bind (.reading fun _ _ => arguments.calm_checkCount _ _ _) fun _ _ =>
    method.keeps_perform hreceiver hfit hnull

end ScriptCore
