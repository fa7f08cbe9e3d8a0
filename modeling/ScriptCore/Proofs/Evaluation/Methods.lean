import Mathlib.Data.List.ReduceOption
import ScriptCore.Proofs.Evaluation.Rules
import ScriptCore.Proofs.Heap.Unfaulted
import ScriptCore.Proofs.Parameters.Convention

/-!
# Named arguments of methods

The methods of lists and dicts declare parameters as functions do, but their arguments do not pass
through `Parameters.bind`.  The positional ones are counted and read by number, and the named ones
are not looked at (`ContainerMethod.call_positional`).

`ContainerMethod.ByConvention` says of a call that it is as the parameters have it, so that no named
argument is lost: it is the call with the arguments in the order of the parameters, or it is
refused.  A call in which the positional arguments are too few or too many is refused whatever the
names are.  Any other has places left only for the fallback of `get` (`length_eq_or_getsKey`), and
it is never refused (`unfaulted_perform`).  So with names it is by the convention only where that
fallback is named and would not have been used.
-/

namespace ScriptCore

/-! ## Names and places -/

namespace Arguments

/-- The arguments in the order of the parameters; what is left out is left off. -/
def inOrder (arguments : Arguments) (parameters : List (String × ParameterDefault)) : List Value :=
  (Parameters.slots arguments (parameters.map (·.1))).reduceOption

variable {arguments : Arguments} {parameters : List (String × ParameterDefault)}

theorem inOrder_of_no_names (hnamed : arguments.named = [])
    (hroom : arguments.positional.length ≤ parameters.length) :
    arguments.inOrder parameters = arguments.positional := by
  obtain ⟨positional, named⟩ := arguments
  obtain rfl : named = [] := hnamed
  have hplaces : positional.length ≤ (parameters.map (·.1)).length := by simpa using hroom
  rw [inOrder, Parameters.slots_of_no_names hplaces, List.reduceOption_append,
    List.reduceOption_replicate_none, List.append_nil]
  simp [List.reduceOption]

/-- Where all places are taken no name has one. -/
theorem NamesSuit.eq_nil {given : Nat} {names : List String}
    (hnames : NamesSuit parameters given names) (hfull : parameters.length ≤ given) :
    names = [] := by
  refine List.eq_nil_iff_forall_not_mem.2 fun name hname => ?_
  have hapart := hnames.apart name hname
  rw [List.take_of_length_le (by simpa using hfull)] at hapart
  exact hapart (hnames.known name hname)

end Arguments

/-! ## The methods of containers -/

/-- A method of a list or a dict, with the address of the container. -/
inductive ContainerMethod
  | list (method : ListMethod) (receiver : Address)
  | dict (method : DictMethod) (receiver : Address)

namespace ContainerMethod

/-- The method that a container has under a name. -/
def ofName? : Value → String → Option ContainerMethod
  | .list receiver, name => (ListMethod.ofName? name).map (list · receiver)
  | .dict receiver, name => (DictMethod.ofName? name).map (dict · receiver)
  | _, _ => none

/-- The name of the method as a function. -/
def qualifiedName : ContainerMethod → String
  | list method _ => method.qualifiedName
  | dict method _ => method.qualifiedName

/-- The names of the required parameters. -/
def requiredNames : ContainerMethod → List String
  | list method _ => method.parameterNames
  | dict method _ => method.requiredNames

/-- The names of the parameters that default to null. -/
def optionalNames : ContainerMethod → List String
  | list _ _ => []
  | dict method _ => method.optionalNames

/-- The parameters in order of declaration. -/
def declared (method : ContainerMethod) : List (String × ParameterDefault) :=
  (method.requiredNames.map fun name => (name, .required)) ++
    method.optionalNames.map fun name => (name, .value .null)

/-- The table of the declared parameters. -/
def parameters : ContainerMethod → Parameters
  | list method _ => method.parameters
  | dict method _ => method.parameters

/-- What the method is as a function. -/
def callable : ContainerMethod → Callable
  | list method receiver => .listMethod method receiver
  | dict method receiver => .dictMethod method receiver

/-- What the method does, once its arguments have been counted. -/
def perform : ContainerMethod → Arguments → Attempt Heap Value
  | list method receiver => method.perform receiver
  | dict method receiver => method.perform receiver

/-- Calls the method. -/
def call : ContainerMethod → Arguments → Attempt Heap Value
  | list method receiver => method.call receiver
  | dict method receiver => method.call receiver

/-- The heap once the method was looked up, which makes a function of it. -/
def lookedUp (method : ContainerMethod) (h : Heap) : Heap :=
  (h.newFunction method.qualifiedName method.parameters method.callable).2

variable (method : ContainerMethod) (arguments : Arguments) (h : Heap)

theorem map_fst_declared :
    method.declared.map (·.1) = method.requiredNames ++ method.optionalNames := by
  simp [declared, Function.comp_def]

theorem nodup_names : (method.requiredNames ++ method.optionalNames).Nodup := by
  cases method with
  | list method receiver =>
      change (method.parameterNames ++ []).Nodup
      cases method <;> decide
  | dict method receiver =>
      change (method.requiredNames ++ method.optionalNames).Nodup
      cases method <;> decide

theorem declares_parameters : method.parameters.Declares method.declared := by
  have htable : method.parameters = .ofList method.declared := by
    cases method with
    | list method receiver => exact congrArg Parameters.ofList (List.append_nil _).symm
    | dict method receiver => rfl
  exact htable ▸ Parameters.declares_ofList (method.map_fst_declared ▸ method.nodup_names)

theorem unfaulted_perform : (method.perform arguments).Unfaulted := by
  cases method with
  | list method receiver => exact method.unfaulted_perform receiver arguments
  | dict method receiver => exact method.unfaulted_perform receiver arguments

/-! ### Calling -/

/-- The positional arguments are counted first. -/
theorem call_eq : method.call arguments =
    (.reading fun _ => arguments.checkCount method.qualifiedName method.requiredNames.length
      method.declared.length) >>= fun _ => method.perform arguments := by
  have hmost : method.declared.length =
      method.requiredNames.length + method.optionalNames.length := by
    simp [declared]
  rw [hmost]
  cases method with
  | list method receiver => rfl
  | dict method receiver => rfl

variable {method arguments h}

theorem call_of_outside (hout : arguments.positional.length < method.requiredNames.length ∨
      method.declared.length < arguments.positional.length) :
    method.call arguments h = (.error (.arity method.qualifiedName (.outsideRange
      method.requiredNames.length method.declared.length arguments.positional.length)), h) := by
  rw [call_eq, Attempt.bind_on]
  simp only [Attempt.reading, Arguments.checkCount, if_pos hout]

theorem call_of_within (hin : ¬(arguments.positional.length < method.requiredNames.length ∨
      method.declared.length < arguments.positional.length)) :
    method.call arguments h = method.perform arguments h := by
  rw [call_eq, Attempt.bind_on]
  simp only [Attempt.reading, Arguments.checkCount, if_neg hin]

/-- Named arguments are not looked at. -/
theorem call_positional :
    method.call (.ofList arguments.positional) = method.call arguments := by
  have hperform : method.perform (.ofList arguments.positional) = method.perform arguments := by
    cases method with
    | list method receiver => cases method <;> rfl
    | dict method receiver => cases method <;> rfl
  rw [call_eq, call_eq, hperform]
  rfl

/-- The call is refused for its arguments and leaves everything as it was. -/
def Refuses (method : ContainerMethod) (arguments : Arguments) (h : Heap) : Prop :=
  ∃ fault, method.call arguments h = (.error (.arity method.qualifiedName fault), h)

theorem refuses_iff : method.Refuses arguments h ↔
    arguments.positional.length < method.requiredNames.length ∨
      method.declared.length < arguments.positional.length := by
  constructor
  · rintro ⟨fault, hcall⟩
    by_contra hin
    rw [call_of_within hin] at hcall
    have hunfaulted := method.unfaulted_perform arguments h
    rw [hcall] at hunfaulted
    exact hunfaulted trivial
  · exact fun hout => ⟨_, call_of_outside hout⟩

/-! ### Looking up -/

theorem getAttribute_eq {container : Value} {name : String}
    (hmethod : ofName? container name = some method) :
    Heap.getAttribute container name h = (.ok (.function h.functions.size), method.lookedUp h) := by
  cases container with
  | list receiver =>
      obtain ⟨found, hfound, rfl⟩ := Option.map_eq_some_iff.1 hmethod
      rw [Heap.getAttribute, hfound]
      rfl
  | dict receiver =>
      obtain ⟨found, hfound, rfl⟩ := Option.map_eq_some_iff.1 hmethod
      rw [Heap.getAttribute, hfound]
      rfl
  | _ => cases hmethod

theorem function_lookedUp :
    (method.lookedUp h).function h.functions.size =
      { name := method.qualifiedName
        parameters := method.parameters
        callable := method.callable
        doc := none
        tailCallOptimized := false } := by
  simp [Heap.function, lookedUp, Heap.newFunction, Array.getD_eq_getD_getElem?]

open Machine Run

theorem settles_call (strategy : Strategy) {m : Machine} {address : Address}
    (hcallable : (m.heap.function address).callable = method.callable) :
    Settles (strategy.call · (.function address) arguments) m
      (onHeap (method.call arguments) m) := by
  cases method with
  | list method receiver => exact Strategy.settles_call_listMethod hcallable
  | dict method receiver => exact Strategy.settles_call_dictMethod hcallable

theorem settles_callMethod {m : Machine} {container : Value} {name : String}
    (hmethod : ofName? container name = some method) :
    Settles (callMethod · container name arguments) m
      ((method.call arguments (method.lookedUp m.heap)).1,
        { m with heap := (method.call arguments (method.lookedUp m.heap)).2 }) := by
  have hread (steps : Nat) : Strategy.deferring.readAttribute container name m =
      some (.ok (.function m.heap.functions.size), { m with heap := method.lookedUp m.heap }) := by
    have hlookup : onHeap (Heap.getAttribute container name) m =
        (.ok (.function m.heap.functions.size), { m with heap := method.lookedUp m.heap }) := by
      simp only [onHeap, getAttribute_eq hmethod]
    rw [Strategy.readAttribute, watch_bind_on, lift_on, hlookup]
    rfl
  refine .bind (.of_eq hread) (settles_call _ ?_)
  simp only [function_lookedUp]

/-! ### The calling convention -/

open Arguments

/-- A call is as the declared parameters have it: it is the call with the arguments in the order of
the parameters, or it is refused, and it is refused if a name has no place. -/
structure ByConvention (method : ContainerMethod) (arguments : Arguments) (h : Heap) : Prop where
  placed : (arguments.Suits method.declared ∧ method.call arguments h =
    method.call (.ofList (arguments.inOrder method.declared)) h) ∨ method.Refuses arguments h
  misnamed : ¬NamesSuit method.declared arguments.positional.length arguments.names →
    method.Refuses arguments h

/-- A key is looked up in a dict, with a fallback by name that would not be used: the key is there,
or it cannot be looked up at all. -/
def SparesFallback (method : ContainerMethod) (arguments : Arguments) (h : Heap) : Prop :=
  ∃ receiver key fallback, method = .dict .get receiver ∧
    arguments = { positional := [key], named := [("default", fallback)] } ∧
    h.hasEntry (h.dict receiver) key ≠ .ok false

/-- Enough positional arguments suit the method without any names. -/
theorem suits_of_no_names (hnamed : arguments.named = [])
    (hleast : method.requiredNames.length ≤ arguments.positional.length)
    (hmost : arguments.positional.length ≤ method.declared.length) :
    arguments.Suits method.declared := by
  have hnames : arguments.names = [] := by rw [names, hnamed, List.map_nil]
  refine ⟨hnames ▸ .nil, hmost, fun name hname => ?_⟩
  rw [declared, List.drop_append, List.drop_eq_nil_of_le (by simpa using hleast),
    List.nil_append] at hname
  simpa using List.mem_of_mem_drop hname

/-- The positions that are not taken are the one of the fallback of `get`. -/
theorem length_eq_or_getsKey
    (hleast : method.requiredNames.length ≤ arguments.positional.length)
    (hmost : arguments.positional.length ≤ method.declared.length) :
    arguments.positional.length = method.declared.length ∨
      ∃ receiver key, method = .dict .get receiver ∧ arguments.positional = [key] := by
  -- Only `get` of a dict has a parameter with a default.
  by_cases hoptional : method.optionalNames = []
  · have hall : method.declared.length = method.requiredNames.length := by
      simp [declared, hoptional]
    exact .inl (by omega)
  · obtain ⟨receiver, rfl⟩ : ∃ receiver, method = .dict .get receiver := by
      cases method with
      | list method receiver => exact absurd rfl hoptional
      | dict method receiver =>
          cases method with
          | get => exact ⟨receiver, rfl⟩
          | _ => exact absurd rfl hoptional
    change 1 ≤ arguments.positional.length at hleast
    change arguments.positional.length ≤ 2 at hmost
    by_cases hone : arguments.positional.length = 1
    · obtain ⟨key, hkey⟩ := List.length_eq_one_iff.1 hone
      exact .inr ⟨receiver, key, rfl, hkey⟩
    · exact .inl (show arguments.positional.length = 2 by omega)

/-- A fallback by name makes no difference if it would not be used. -/
theorem call_get_eq_iff {receiver : Address} {key fallback : Value} :
    (dict .get receiver).call { positional := [key], named := [("default", fallback)] } h =
        (dict .get receiver).call (.ofList [key, fallback]) h ↔
      h.hasEntry (h.dict receiver) key ≠ .ok false := by
  calc
    _ ↔ (h.lookupEntry (h.dict receiver) key, h) =
        (h.hasEntry (h.dict receiver) key >>= fun found =>
          if found then h.lookupEntry (h.dict receiver) key else .ok fallback, h) := Iff.rfl
    _ ↔ h.lookupEntry (h.dict receiver) key =
        h.hasEntry (h.dict receiver) key >>= fun found =>
          if found then h.lookupEntry (h.dict receiver) key else .ok fallback := by
      rw [Prod.mk.injEq, and_iff_left rfl]
    _ ↔ h.hasEntry (h.dict receiver) key ≠ .ok false := by
      rw [Heap.lookupEntry, Heap.hasEntry]
      cases h.key key with
      | error err => simp [bind, Except.bind]
      | ok k =>
          cases hfound : (h.dict receiver).find? k.text k.hash <;>
            simp [bind, Except.bind, pure, Except.pure, HashTable.contains, HashTable.search,
              hfound]

/-- Next to the key only the name of the fallback has a place. -/
theorem names_eq_of_namesSuit {receiver : Address} {names : List String}
    (hnames : NamesSuit (dict .get receiver).declared 1 names) (hsome : names ≠ []) :
    names = ["default"] := by
  have hall : ∀ name ∈ names, name = "default" := by
    intro name hname
    have hknown : name ∈ ["key", "default"] := hnames.known name hname
    have hapart : name ∉ ["key"] := hnames.apart name hname
    simp only [List.mem_cons, List.not_mem_nil, or_false] at hknown hapart
    exact hknown.resolve_left hapart
  have hlength : names.length ≤ 1 :=
    List.nodup_replicate.1 (List.eq_replicate_of_mem hall ▸ hnames.once)
  have hpos := List.length_pos_iff.2 hsome
  rw [List.eq_replicate_of_mem hall, show names.length = 1 by omega]
  rfl

/-- With names, a key is looked up by the convention if a fallback is named that would not be
used. -/
theorem byConvention_getsKey_iff {receiver : Address} {key : Value} {named : List (String × Value)}
    (hnamed : named ≠ []) :
    (dict .get receiver).ByConvention { positional := [key], named } h ↔
      (dict .get receiver).SparesFallback { positional := [key], named } h := by
  have hserved : ¬(dict .get receiver).Refuses { positional := [key], named } h := by
    rw [refuses_iff]
    exact (by decide : ¬(1 < 1 ∨ 2 < 1))
  constructor
  · intro hconvention
    obtain ⟨hsuits, hcall⟩ := hconvention.placed.resolve_right hserved
    -- One place is left, so the names that suit are that of the fallback.
    have hnames : named.map (·.1) = ["default"] :=
      names_eq_of_namesSuit hsuits.toNamesSuit (by simpa [names] using hnamed)
    obtain ⟨fallback, rfl⟩ : ∃ fallback, named = [("default", fallback)] := by
      obtain ⟨⟨name, fallback⟩, rfl, hname⟩ := List.map_eq_singleton_iff.1 hnames
      exact ⟨fallback, by rw [← hname]⟩
    exact ⟨receiver, key, fallback, rfl, rfl, call_get_eq_iff.1 hcall⟩
  · rintro ⟨_, _, fallback, ⟨⟩, ⟨⟩, hentry⟩
    have hdeclared : (dict .get receiver).declared =
        [("key", .required), ("default", .value .null)] := rfl
    have hnames : NamesSuit [("key", .required), ("default", .value .null)] 1 ["default"] :=
      ⟨by decide, by decide, by decide⟩
    refine ⟨.inl ⟨⟨hdeclared ▸ hnames, Nat.le_succ 1, fun name hname => ?_⟩,
      call_get_eq_iff.2 hentry⟩, fun hmisnamed => absurd (hdeclared ▸ hnames) hmisnamed⟩
    rw [hdeclared] at hname
    simp at hname

theorem byConvention_iff : method.ByConvention arguments h ↔
    arguments.named = [] ∨ arguments.positional.length < method.requiredNames.length ∨
      method.declared.length < arguments.positional.length ∨ method.SparesFallback arguments h := by
  by_cases hrefuses : method.Refuses arguments h
  · refine iff_of_true ⟨.inr hrefuses, fun _ => hrefuses⟩ ?_
    rcases refuses_iff.1 hrefuses with hfew | hmany
    · exact .inr (.inl hfew)
    · exact .inr (.inr (.inl hmany))
  have hin := mt refuses_iff.2 hrefuses
  obtain ⟨hleast, hmost⟩ : method.requiredNames.length ≤ arguments.positional.length ∧
      arguments.positional.length ≤ method.declared.length := by omega
  by_cases hnamed : arguments.named = []
  · have hsuits := suits_of_no_names hnamed hleast hmost
    refine iff_of_true ⟨.inl ⟨hsuits, ?_⟩, fun hnot => absurd hsuits.toNamesSuit hnot⟩ (.inl hnamed)
    rw [inOrder_of_no_names hnamed hmost, call_positional]
  -- What is left has enough arguments and not too many, and names besides.
  rcases length_eq_or_getsKey hleast hmost with hfull | ⟨receiver, key, rfl, hkey⟩
  · -- No place is left for a name, so none suits.
    have hnames : ¬NamesSuit method.declared arguments.positional.length arguments.names :=
      fun hnames => hnamed (List.map_eq_nil_iff.1 (hnames.eq_nil (Nat.le_of_eq hfull.symm)))
    refine iff_of_false (fun hconvention => hrefuses (hconvention.misnamed hnames)) ?_
    rintro (hnone | hfew | hmany | ⟨receiver, key, fallback, rfl, rfl, -⟩)
    · exact hnamed hnone
    · omega
    · omega
    · exact absurd hfull (by decide : ¬(1 = 2))
  · obtain ⟨positional, named⟩ := arguments
    obtain rfl : positional = [key] := hkey
    rw [byConvention_getsKey_iff hnamed]
    refine ⟨fun hspares => .inr (.inr (.inr hspares)), ?_⟩
    rintro (hnone | hfew | hmany | hspares)
    · exact absurd hnone hnamed
    · exact absurd hfew (by decide : ¬(1 < 1))
    · exact absurd hmany (by decide : ¬(2 < 1))
    · exact hspares

/-- **Methods drop named arguments.**  A method that is looked up in a container tells its declared
parameters, but a call of it counts and reads the positional arguments only, so it is the call
without the names.  That is as the parameters have it exactly where there are no names, where the
positional arguments are refused for their number, and where a name gives `get` a fallback that
would not be used. -/
theorem callMethod_by_convention_iff {container : Value} {name : String}
    (hmethod : ofName? container name = some method) (m : Machine) (arguments : Arguments) :
    ((method.lookedUp m.heap).function m.heap.functions.size).parameters.Declares method.declared ∧
    Settles (callMethod · container name arguments) m
      ((method.call arguments (method.lookedUp m.heap)).1,
        { m with heap := (method.call arguments (method.lookedUp m.heap)).2 }) ∧
    method.call arguments = method.call (.ofList arguments.positional) ∧
    (method.ByConvention arguments (method.lookedUp m.heap) ↔
      arguments.named = [] ∨ arguments.positional.length < method.requiredNames.length ∨
        method.declared.length < arguments.positional.length ∨
        method.SparesFallback arguments (method.lookedUp m.heap)) := by
  refine ⟨?_, settles_callMethod hmethod, call_positional.symm, byConvention_iff⟩
  rw [function_lookedUp]
  exact method.declares_parameters

/-- A machine with an empty list and a dict of one entry. -/
def stocked : Machine :=
  let table : DictTable := .append .empty (.string "k") (hashText "s:k") "s:k" (.integer 1)
  { start { maxDepth := 10 } with heap := ((Heap.empty.newList []).2.newDict table).2 }

/-- The fallback for a key that is there may come by name. -/
theorem callMethod_by_convention_stocked :
    let arguments : Arguments := ⟨[.string "k"], [("default", .integer 0)]⟩
    (dict .get 0).ByConvention arguments ((dict .get 0).lookedUp stocked.heap) ∧
      ∃ m', Settles (callMethod · (.dict 0) "get" arguments) stocked (.ok (.integer 1), m') := by
  intro arguments
  have hmethod : ofName? (.dict 0) "get" = some (dict .get 0) := rfl
  obtain ⟨-, hcall, -, hconvention⟩ := callMethod_by_convention_iff hmethod stocked arguments
  have hentry : ((dict .get 0).lookedUp stocked.heap).hasEntry
      (((dict .get 0).lookedUp stocked.heap).dict 0) (.string "k") ≠ .ok false := by decide +kernel
  have houtcome : ((dict .get 0).call arguments ((dict .get 0).lookedUp stocked.heap)).1 =
      .ok (.integer 1) := by decide +kernel
  rw [houtcome] at hcall
  exact ⟨hconvention.2 (.inr (.inr (.inr ⟨0, _, _, rfl, rfl, hentry⟩))), _, hcall⟩

/-- A second value for a parameter that has one is dropped and the call goes through, and a fallback
that would be needed is not taken from its name. -/
theorem callMethod_drops_names :
    let doubled : Arguments := ⟨[.integer 1], [("value", .integer 2)]⟩
    let wanting : Arguments := ⟨[.string "x"], [("default", .integer 0)]⟩
    (¬(list .append 0).ByConvention doubled ((list .append 0).lookedUp stocked.heap) ∧
      ∃ m', Settles (callMethod · (.list 0) "append" doubled) stocked (.ok .null, m') ∧
        (m'.heap.list 0).toList = [.integer 1]) ∧
    ¬(dict .get 0).ByConvention wanting ((dict .get 0).lookedUp stocked.heap) ∧
      ∃ m', Settles (callMethod · (.dict 0) "get" wanting) stocked
        (.error (.keyNotFound "s:x"), m') := by
  intro doubled wanting
  have happend : ((list .append 0).call doubled ((list .append 0).lookedUp stocked.heap)).1 =
      .ok .null := rfl
  have hget : ((dict .get 0).call wanting ((dict .get 0).lookedUp stocked.heap)).1 =
      .error (.keyNotFound "s:x") := by decide +kernel
  have hmissing : ((dict .get 0).lookedUp stocked.heap).hasEntry
      (((dict .get 0).lookedUp stocked.heap).dict 0) (.string "x") = .ok false := by decide +kernel
  refine ⟨⟨fun hconvention => ?_, _, happend ▸ settles_callMethod rfl, rfl⟩, fun hconvention => ?_,
    _, hget ▸ settles_callMethod rfl⟩
  · have hmisnamed : ¬NamesSuit (list .append 0).declared 1 doubled.names := fun hnames =>
      absurd (hnames.eq_nil (Nat.le_refl 1)) (by decide)
    obtain ⟨fault, hcall⟩ := hconvention.misnamed hmisnamed
    exact nomatch happend.symm.trans (congrArg Prod.fst hcall)
  · obtain ⟨_, _, fallback, ⟨⟩, ⟨⟩, hentry⟩ := (byConvention_getsKey_iff (by decide)).1 hconvention
    exact hentry hmissing

end ContainerMethod

end ScriptCore
