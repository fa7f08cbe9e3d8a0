import Mathlib.Data.List.Induction
import Mathlib.Data.List.Nodup
import Mathlib.Tactic.Push
import Mathlib.Tactic.Tauto
import ScriptCore.Proofs.Parameters

/-!
# The calling convention

Which arguments a callee takes is said here of the parameters in order of declaration, without a
word about slots.  `Arguments.Suits` lists what is asked of arguments, `Arguments.valueOf?` says
what a parameter stands for, and `Arguments.Misses` which fault is the first: too many positional
arguments, then the first named argument that has no place, then the first parameter without a
value.

`Parameters.bind` works on a row of slots, one for each parameter.  Once the named arguments up to
one were accepted the row is known (`slots`), so the next one is accepted or refused by its name
alone (`fillNamed_slots`), and in the end each slot holds what the arguments give its parameter.  So
arguments that suit the parameters are bound (`exists_bind_of_suits`) and a first fault is reported
(`bind_of_misses`).  Arguments that do not suit have a first fault (`exists_misses_of_not_suits`),
so there is nothing else (`bind_by_convention`).
-/

namespace ScriptCore

/-! ## The convention -/

/-- The value that stands in for an argument, if one may be left out. -/
def ParameterDefault.value? : ParameterDefault → Option Value
  | .required => none
  | .value standIn => some standIn

namespace Arguments

/-- The names under which arguments are given. -/
def names (arguments : Arguments) : List String :=
  arguments.named.map (·.1)

/-- Named arguments have a place: each names a parameter behind those that the positional arguments
take up, and no two name the same. -/
structure NamesSuit (parameters : List (String × ParameterDefault)) (given : Nat)
    (names : List String) : Prop where
  known : ∀ name ∈ names, name ∈ parameters.map (·.1)
  apart : ∀ name ∈ names, name ∉ (parameters.map (·.1)).take given
  once : names.Nodup

/-- The arguments are what the parameters ask for. -/
structure Suits (arguments : Arguments) (parameters : List (String × ParameterDefault)) : Prop
    extends NamesSuit parameters arguments.positional.length arguments.names where
  room : arguments.positional.length ≤ parameters.length
  complete : ∀ name, (name, .required) ∈ parameters.drop arguments.positional.length →
    name ∈ arguments.names

/-- What is given at a position or under a name: the positional argument there, else the one with
the name. -/
def offer? (arguments : Arguments) (position : Nat) (name : String) : Option Value :=
  arguments.positional[position]?.or (arguments.named? name)

/-- What a parameter at a position stands for: the argument given for it, else its default. -/
def valueOf? (arguments : Arguments) (position : Nat) (parameter : String × ParameterDefault) :
    Option Value :=
  (arguments.offer? position parameter.1).or parameter.2.value?

/-- The first thing that is wrong with arguments. -/
inductive Misses (arguments : Arguments) (parameters : List (String × ParameterDefault)) :
    ArityFault → Prop
  | surplus (hmany : parameters.length < arguments.positional.length) :
      Misses arguments parameters (.surplus parameters.length arguments.positional.length)
  | unexpected {before after : List (String × Value)} {name : String} {value : Value}
      (hroom : arguments.positional.length ≤ parameters.length)
      (hnamed : arguments.named = before ++ (name, value) :: after)
      (hbefore : NamesSuit parameters arguments.positional.length (before.map (·.1)))
      (hunknown : name ∉ parameters.map (·.1)) :
      Misses arguments parameters (.unexpected name)
  | repeated {before after : List (String × Value)} {name : String} {value : Value}
      (hroom : arguments.positional.length ≤ parameters.length)
      (hnamed : arguments.named = before ++ (name, value) :: after)
      (hbefore : NamesSuit parameters arguments.positional.length (before.map (·.1)))
      (hknown : name ∈ parameters.map (·.1))
      (htaken : name ∈ (parameters.map (·.1)).take arguments.positional.length ∨
        name ∈ before.map (·.1)) :
      Misses arguments parameters (.repeated name)
  | missing {before after : List (String × ParameterDefault)} {name : String}
      (hroom : arguments.positional.length ≤ parameters.length)
      (hnames : NamesSuit parameters arguments.positional.length arguments.names)
      (hparameters : parameters = before ++ (name, .required) :: after)
      (hbehind : arguments.positional.length ≤ before.length)
      (hbefore : ∀ earlier, (earlier, .required) ∈ before.drop arguments.positional.length →
        earlier ∈ arguments.names)
      (hname : name ∉ arguments.names) :
      Misses arguments parameters (.missing name)

end Arguments

/-- A table has come about by declaring parameters and taking them out again, which has left some in
this order. -/
inductive Parameters.Declares : Parameters → List (String × ParameterDefault) → Prop
  | empty : Declares .empty []
  | declare {p : Parameters} {declared : List (String × ParameterDefault)}
      (hp : Declares p declared) (name : String) (default : ParameterDefault) :
      Declares (p.declare name default)
        (declared.filter (fun entry => entry.1 != name) ++ [(name, default)])
  | remove {p : Parameters} {declared : List (String × ParameterDefault)}
      (hp : Declares p declared) (name : String) :
      Declares (p.remove name).2 (declared.filter fun entry => entry.1 != name)

theorem Parameters.Declares.valid {p : Parameters} {declared : List (String × ParameterDefault)}
    (hp : p.Declares declared) : p.table.Valid ∧ p.entries = declared := by
  induction hp with
  | empty => exact ⟨NameTable.valid_empty, rfl⟩
  | declare _ name default ih =>
      obtain ⟨hvalid, rfl⟩ := ih
      exact hvalid.set name default
  | remove _ name ih =>
      obtain ⟨hvalid, rfl⟩ := ih
      exact hvalid.remove name

/-- Parameters of different names stand in the table as they were listed. -/
theorem Parameters.declares_ofList {declarations : List (String × ParameterDefault)}
    (hnodup : (declarations.map (·.1)).Nodup) : (ofList declarations).Declares declarations := by
  induction declarations using List.reverseRecOn with
  | nil => exact .empty
  | append_singleton init last ih =>
      obtain ⟨name, default⟩ := last
      obtain ⟨hinit, -, hnew⟩ := List.nodup_append.1 (List.map_append ▸ hnodup)
      have hkept : init.filter (fun entry => entry.1 != name) = init :=
        List.filter_eq_self.2 fun entry hentry =>
          bne_iff_ne.2 (hnew _ (List.mem_map_of_mem hentry) name (by simp))
      have hdeclares := (ih hinit).declare name default
      rw [hkept] at hdeclares
      rwa [ofList, List.foldl_append]

open Arguments

variable {parameters : List (String × ParameterDefault)} {arguments : Arguments} {owner : String}
  {positional : List Value} {before after : List (String × Value)} {name : String} {value : Value}

/-! ## Arguments that do not suit have a first fault -/

namespace Arguments

theorem NamesSuit.nil {given : Nat} : NamesSuit parameters given [] :=
  ⟨fun _ hname => absurd hname List.not_mem_nil, fun _ hname => absurd hname List.not_mem_nil, .nil⟩

/-- One more name has a place if it is that of a parameter that is not taken. -/
theorem namesSuit_append_singleton_iff {given : Nat} {names : List String} :
    NamesSuit parameters given (names ++ [name]) ↔ NamesSuit parameters given names ∧
      name ∈ parameters.map (·.1) ∧ name ∉ (parameters.map (·.1)).take given ∧ name ∉ names := by
  constructor
  · rintro ⟨hknown, hapart, honce⟩
    obtain ⟨honce, -, hnew⟩ := List.nodup_append.1 honce
    refine ⟨⟨fun other hother => hknown other (List.mem_append_left _ hother),
      fun other hother => hapart other (List.mem_append_left _ hother), honce⟩,
      hknown name (by simp), hapart name (by simp), fun hname => ?_⟩
    exact hnew name hname name (by simp) rfl
  · rintro ⟨⟨hknown, hapart, honce⟩, hname, hfree, hnew⟩
    refine ⟨fun other hother => ?_, fun other hother => ?_, ?_⟩
    · rcases List.mem_append.1 hother with hbefore | hlast
      · exact hknown other hbefore
      · exact List.mem_singleton.1 hlast ▸ hname
    · rcases List.mem_append.1 hother with hbefore | hlast
      · exact hapart other hbefore
      · exact List.mem_singleton.1 hlast ▸ hfree
    · refine List.nodup_append.2 ⟨honce, List.nodup_singleton name, ?_⟩
      rintro other hother last hlast rfl
      exact hnew (List.mem_singleton.1 hlast ▸ hother)

/-- Of named arguments that have no place there is a first one. -/
theorem exists_misplaced {given : Nat} {named : List (String × Value)}
    (hnot : ¬ NamesSuit parameters given (named.map (·.1))) :
    ∃ before name value after, named = before ++ (name, value) :: after ∧
      NamesSuit parameters given (before.map (·.1)) ∧
      ¬ NamesSuit parameters given (before.map (·.1) ++ [name]) := by
  induction named using List.reverseRecOn with
  | nil => exact absurd .nil hnot
  | append_singleton init last ih =>
      by_cases hinit : NamesSuit parameters given (init.map (·.1))
      · exact ⟨init, last.1, last.2, [], rfl, hinit, by simpa using hnot⟩
      · obtain ⟨before, name, value, after, rfl, hbefore, hlast⟩ := ih hinit
        exact ⟨before, name, value, after ++ [last], by simp, hbefore, hlast⟩

/-- Of required parameters that no argument names there is a first one. -/
theorem exists_first_missing {rest : List (String × ParameterDefault)} {names : List String}
    (hnot : ¬ ∀ name, (name, .required) ∈ rest → name ∈ names) :
    ∃ before name after, rest = before ++ (name, .required) :: after ∧
      (∀ earlier, (earlier, .required) ∈ before → earlier ∈ names) ∧ name ∉ names := by
  induction rest using List.reverseRecOn with
  | nil => exact absurd (fun name hname => absurd hname List.not_mem_nil) hnot
  | append_singleton init last ih =>
      by_cases hinit : ∀ name, (name, .required) ∈ init → name ∈ names
      · push Not at hnot
        obtain ⟨name, hmem, hname⟩ := hnot
        obtain rfl : (name, .required) = last := by
          rcases List.mem_append.1 hmem with hbefore | hlast
          · exact absurd (hinit name hbefore) hname
          · exact List.mem_singleton.1 hlast
        exact ⟨init, name, [], rfl, hinit, hname⟩
      · obtain ⟨before, name, after, rfl, hbefore, hname⟩ := ih hinit
        exact ⟨before, name, after ++ [last], by simp, hbefore, hname⟩

theorem exists_misses_of_not_suits (hnot : ¬ arguments.Suits parameters) :
    ∃ fault, arguments.Misses parameters fault := by
  by_cases hroom : arguments.positional.length ≤ parameters.length
  · by_cases hnames : NamesSuit parameters arguments.positional.length arguments.names
    · -- The names are in order, so it must be that a parameter has no value.
      have hcomplete : ¬ ∀ name, (name, .required) ∈
          parameters.drop arguments.positional.length → name ∈ arguments.names :=
        fun hcomplete => hnot ⟨hnames, hroom, hcomplete⟩
      obtain ⟨before, name, after, hrest, hbefore, hname⟩ := exists_first_missing hcomplete
      have htaken : (parameters.take arguments.positional.length).length =
          arguments.positional.length := List.length_take_of_le hroom
      have hparameters : parameters = (parameters.take arguments.positional.length ++ before) ++
          (name, .required) :: after := by
        rw [List.append_assoc, ← hrest, List.take_append_drop]
      refine ⟨_, .missing hroom hnames hparameters ?_ ?_ hname⟩
      · rw [List.length_append, htaken]
        exact Nat.le_add_right _ _
      · rwa [List.drop_append, htaken, Nat.sub_self, List.drop_zero, List.drop_eq_nil_of_le
          (Nat.le_of_eq htaken), List.nil_append]
    · -- The first name out of order is one of no parameter or one that was taken before.
      obtain ⟨before, name, value, after, hnamed, hbefore, hlast⟩ := exists_misplaced hnames
      by_cases hknown : name ∈ parameters.map (·.1)
      · refine ⟨_, .repeated hroom hnamed hbefore hknown ?_⟩
        rw [namesSuit_append_singleton_iff] at hlast
        tauto
      · exact ⟨_, .unexpected hroom hnamed hbefore hknown⟩
  · exact ⟨_, .surplus (Nat.lt_of_not_le hroom)⟩

end Arguments

namespace Parameters

/-! ## Slots -/

/-- What the arguments give the parameters with some names. -/
def slots (arguments : Arguments) (names : List String) : List (Option Value) :=
  names.mapIdx arguments.offer?

/-- The slots before any named argument is taken up. -/
theorem slots_of_no_names {names : List String} (hroom : positional.length ≤ names.length) :
    slots { positional, named := [] } names =
      positional.map some ++ List.replicate (names.length - positional.length) none := by
  refine List.ext_getElem (by simp [slots]; omega) fun position hleft hright => ?_
  simp only [slots, List.getElem_mapIdx, Arguments.offer?, Arguments.named?, List.find?_nil,
    Option.map_none, Option.or_none, List.getElem_append, List.getElem_map,
    List.getElem_replicate, List.length_map]
  split
  · exact List.getElem?_eq_getElem _
  · exact List.getElem?_eq_none (by omega)

theorem isSome_named?_iff : (arguments.named? name).isSome = true ↔ name ∈ arguments.names := by
  simp only [Arguments.named?, Arguments.names, Option.isSome_map, List.find?_isSome, beq_iff_eq,
    List.mem_map]

theorem named?_append_singleton (hnew : name ∉ before.map (·.1)) (other : String) :
    ({ positional, named := before ++ [(name, value)] } : Arguments).named? other =
      if other = name then some value
      else ({ positional, named := before } : Arguments).named? other := by
  simp only [Arguments.named?, List.find?_append]
  grind

@[simp] theorem length_slots (arguments : Arguments) (names : List String) :
    (slots arguments names).length = names.length :=
  List.length_mapIdx

theorem getElem?_slots (arguments : Arguments) (names : List String) (position : Nat) :
    (slots arguments names)[position]? = names[position]?.map (arguments.offer? position) :=
  List.getElem?_mapIdx

/-- A name stands among the first ones if its place is one of the first. -/
theorem mem_take_iff_of_getElem? {names : List String} (hnodup : names.Nodup) {position : Nat}
    (hplace : names[position]? = some name) {given : Nat} :
    name ∈ names.take given ↔ position < given := by
  obtain ⟨hlt, rfl⟩ := List.getElem?_eq_some_iff.1 hplace
  rw [List.mem_take_iff_getElem]
  constructor
  · rintro ⟨other, hother, hsame⟩
    obtain rfl := hnodup.getElem_inj_iff.1 hsame
    omega
  · intro hposition
    exact ⟨position, by omega, rfl⟩

/-- A named argument goes into the slot of its parameter unless there is something in it. -/
theorem fillNamed_slots {names : List String} (hnodup : names.Nodup) {position : Nat}
    (hplace : names[position]? = some name) :
    fillNamed names owner (slots { positional, named := before } names) (name, value) =
      if position < positional.length ∨ name ∈ before.map (·.1) then
        .error (.arity owner (.repeated name))
      else .ok (slots { positional, named := before ++ [(name, value)] } names) := by
  obtain ⟨hlt, hget⟩ := List.getElem?_eq_some_iff.1 hplace
  have hfound : names.findIdx? (· == name) = some position := by
    rw [List.findIdx?_eq_some_iff_getElem]
    refine ⟨hlt, by simpa using hget, fun other hother hsame => ?_⟩
    have := hnodup.getElem_inj_iff.1 ((beq_iff_eq.1 hsame).trans hget.symm)
    omega
  -- The slot is taken by a positional argument or by a named one before.
  have hslot : ((slots { positional, named := before } names).getD position none).isSome = true ↔
      position < positional.length ∨ name ∈ before.map (·.1) := by
    rw [List.getD_eq_getElem?_getD, getElem?_slots, hplace]
    simp [Arguments.offer?, isSome_named?_iff, Arguments.names]
  simp only [fillNamed, hfound, hslot]
  split
  · rfl
  · rename_i hfree
    obtain ⟨hbehind, hnew⟩ := not_or.1 hfree
    refine congrArg Except.ok (List.ext_getElem? fun other => ?_)
    rw [List.getElem?_set, getElem?_slots, getElem?_slots, length_slots]
    split
    · subst other
      rw [hplace, Option.map_some, Arguments.offer?, named?_append_singleton hnew, if_pos rfl,
        List.getElem?_eq_none (Nat.le_of_not_lt hbehind), Option.none_or]
    · rename_i hother
      cases hthere : names[other]? with
      | none => rfl
      | some found =>
          have hne : found ≠ name := by
            rintro rfl
            obtain ⟨_, hget'⟩ := List.getElem?_eq_some_iff.1 hthere
            exact hother (hnodup.getElem_inj_iff.1 (hget.trans hget'.symm))
          simp only [Option.map_some, Arguments.offer?, named?_append_singleton hnew, if_neg hne]

theorem fillNamed_of_not_mem {names : List String} {slots : List (Option Value)}
    (hunknown : name ∉ names) :
    fillNamed names owner slots (name, value) = .error (.arity owner (.unexpected name)) := by
  have hnone : names.findIdx? (· == name) = none := by
    rw [List.findIdx?_eq_none_iff]
    intro other hother
    exact beq_false_of_ne fun hsame => hunknown (hsame ▸ hother)
  simp only [fillNamed, hnone]

/-- The named arguments are taken up if all of them have a place. -/
theorem foldlM_fillNamed (hnodup : (parameters.map (·.1)).Nodup)
    {named : List (String × Value)}
    (hnames : NamesSuit parameters positional.length (named.map (·.1))) :
    named.foldlM (fillNamed (parameters.map (·.1)) owner)
        (slots { positional, named := [] } (parameters.map (·.1))) =
      .ok (slots { positional, named } (parameters.map (·.1))) := by
  induction named using List.reverseRecOn with
  | nil => rfl
  | append_singleton before last ih =>
      obtain ⟨name, value⟩ := last
      rw [List.map_append, List.map_singleton, namesSuit_append_singleton_iff] at hnames
      obtain ⟨hbefore, hknown, hfree, hnew⟩ := hnames
      obtain ⟨position, hplace⟩ := List.mem_iff_getElem?.1 hknown
      rw [mem_take_iff_of_getElem? hnodup hplace] at hfree
      rw [List.foldlM_append, ih hbefore]
      change (fillNamed _ owner _ (name, value) >>= fun slots => .ok slots) = _
      rw [fillNamed_slots hnodup hplace, if_neg (not_or.2 ⟨hfree, hnew⟩)]
      rfl

/-- The first named argument that has no place ends the taking up. -/
theorem foldlM_fillNamed_eq_error (hnodup : (parameters.map (·.1)).Nodup)
    {named : List (String × Value)} {err : RuntimeError}
    (hnamed : named = before ++ (name, value) :: after)
    (hbefore : NamesSuit parameters positional.length (before.map (·.1)))
    (hfail : fillNamed (parameters.map (·.1)) owner
      (slots { positional, named := before } (parameters.map (·.1))) (name, value) = .error err) :
    named.foldlM (fillNamed (parameters.map (·.1)) owner)
      (slots { positional, named := [] } (parameters.map (·.1))) = .error err := by
  rw [hnamed, List.foldlM_append, foldlM_fillNamed hnodup hbefore]
  change ((name, value) :: after).foldlM (fillNamed (parameters.map (·.1)) owner)
    (slots { positional, named := before } (parameters.map (·.1))) = _
  rw [List.foldlM_cons, hfail]
  rfl

/-! ## Binding -/

/-- With room for the positional arguments, binding takes up the named ones and then settles each
parameter. -/
theorem bind_eq {p : Parameters} (hp : p.table.Valid)
    (hroom : arguments.positional.length ≤ p.entries.length) :
    p.bind owner arguments =
      (arguments.named.foldlM (fillNamed (p.entries.map (·.1)) owner)
        (slots { arguments with named := [] } (p.entries.map (·.1))) >>= fun filled =>
          (p.entries.zip filled).mapM fun entry => settle owner entry.1 entry.2) := by
  have hcount : p.count = p.entries.length := hp.count_eq
  have hnames : p.table.names = p.entries.map (·.1) := hp.names_eq
  have hplaces : arguments.positional.length ≤ (p.entries.map (·.1)).length := by simpa using hroom
  have hslots := slots_of_no_names hplaces
  rw [List.length_map, ← hcount] at hslots
  rw [Parameters.bind, hnames, hslots]
  simp only [if_neg (Nat.not_lt.2 (hcount ▸ hroom))]

/-- The parameters, each with what the arguments give it. -/
def offers (arguments : Arguments) (parameters : List (String × ParameterDefault)) :
    List ((String × ParameterDefault) × Option Value) :=
  parameters.mapIdx fun position parameter => (parameter, arguments.offer? position parameter.1)

/-- Once all names have a place, each parameter is settled with what the arguments give it. -/
theorem bind_of_namesSuit {p : Parameters} (hp : p.table.Valid)
    (hroom : arguments.positional.length ≤ p.entries.length)
    (hnames : NamesSuit p.entries arguments.positional.length arguments.names) :
    p.bind owner arguments =
      (offers arguments p.entries).mapM fun entry => settle owner entry.1 entry.2 := by
  have hnodup : (p.entries.map (·.1)).Nodup := hp.names_nodup
  rw [bind_eq hp hroom, foldlM_fillNamed hnodup hnames]
  have hoffers : p.entries.zip (slots arguments (p.entries.map (·.1))) =
      offers arguments p.entries :=
    List.ext_getElem (by simp [offers]) fun position _ _ => by simp [slots, offers]
  change (p.entries.zip (slots arguments (p.entries.map (·.1)))).mapM _ = _
  rw [hoffers]

/-- A parameter is settled with the value that it stands for; without one it is missing. -/
theorem settle_offer (position : Nat) (parameter : String × ParameterDefault) :
    settle owner parameter (arguments.offer? position parameter.1) =
      match arguments.valueOf? position parameter with
      | some value => .ok (parameter.1, value)
      | none => .error (.arity owner (.missing parameter.1)) := by
  obtain ⟨name, default⟩ := parameter
  unfold valueOf?
  cases arguments.offer? position name <;> cases default <;> rfl

theorem isSome_valueOf?_iff {position : Nat} {parameter : String × ParameterDefault} :
    (arguments.valueOf? position parameter).isSome = true ↔
      position < arguments.positional.length ∨ parameter.1 ∈ arguments.names ∨
        parameter.2 ≠ .required := by
  have hdefault : parameter.2.value?.isSome = true ↔ parameter.2 ≠ .required := by
    cases parameter.2 <;> simp [ParameterDefault.value?]
  simp [valueOf?, offer?, ← isSome_named?_iff, hdefault, or_assoc]

/-- Parameters none of which is missing are all settled. -/
theorem exists_settle_eq_ok
    (hcomplete : ∀ name, (name, .required) ∈ parameters.drop arguments.positional.length →
      name ∈ arguments.names) :
    ∀ entry ∈ offers arguments parameters, ∃ bound, settle owner entry.1 entry.2 = .ok bound := by
  intro entry hentry
  obtain ⟨position, hlt, rfl⟩ := List.mem_mapIdx.1 hentry
  have hsome : (arguments.valueOf? position parameters[position]).isSome = true := by
    rw [isSome_valueOf?_iff]
    by_cases hgiven : position < arguments.positional.length
    · exact .inl hgiven
    by_cases hrequired : parameters[position].2 = .required
    · refine .inr (.inl (hcomplete _ ?_))
      rw [← hrequired]
      exact List.mem_drop_iff_getElem.2 ⟨position - arguments.positional.length, by omega,
        by simp [Nat.add_sub_cancel' (Nat.le_of_not_lt hgiven)]⟩
    · exact .inr (.inr hrequired)
  obtain ⟨value, hvalue⟩ := Option.isSome_iff_exists.1 hsome
  exact ⟨(parameters[position].1, value), by rw [settle_offer, hvalue]⟩

/-- Arguments that suit the parameters are bound. -/
theorem exists_bind_of_suits {p : Parameters} (hp : p.table.Valid)
    (hsuits : arguments.Suits p.entries) : ∃ bound, p.bind owner arguments = .ok bound := by
  rw [bind_of_namesSuit hp hsuits.room hsuits.toNamesSuit]
  exact exists_mapM_eq_ok (exists_settle_eq_ok hsuits.complete)

/-- The first fault is the one that is reported. -/
theorem bind_of_misses {p : Parameters} (hp : p.table.Valid) {fault : ArityFault}
    (hmisses : arguments.Misses p.entries fault) :
    p.bind owner arguments = .error (.arity owner fault) := by
  have hnodup : (p.entries.map (·.1)).Nodup := hp.names_nodup
  cases hmisses with
  | surplus hmany =>
      have hcount : p.count = p.entries.length := hp.count_eq
      rw [Parameters.bind, hcount]
      simp only [if_pos hmany]
      rfl
  | unexpected hroom hnamed hbefore hunknown =>
      rw [bind_eq hp hroom, foldlM_fillNamed_eq_error hnodup hnamed hbefore
        (fillNamed_of_not_mem hunknown)]
      rfl
  | «repeated» hroom hnamed hbefore hknown htaken =>
      obtain ⟨position, hplace⟩ := List.mem_iff_getElem?.1 hknown
      rw [mem_take_iff_of_getElem? hnodup hplace] at htaken
      rw [bind_eq hp hroom, foldlM_fillNamed_eq_error hnodup hnamed hbefore
        ((fillNamed_slots hnodup hplace).trans (if_pos htaken))]
      rfl
  | @missing before after name hroom hnames hparameters hbehind hbefore hname =>
      have hoffers : offers arguments p.entries = offers arguments before ++
          ((name, .required), arguments.offer? before.length name) ::
            after.mapIdx fun position parameter =>
              (parameter, arguments.offer? (position + 1 + before.length) parameter.1) := by
        rw [hparameters, offers, List.mapIdx_append, List.mapIdx_cons]
        simp [offers]
      have hnone : arguments.valueOf? before.length (name, .required) = none := by
        rw [← Option.not_isSome_iff_eq_none, isSome_valueOf?_iff]
        simp [hname, Nat.not_lt.2 hbehind]
      rw [bind_of_namesSuit hp hroom hnames, hoffers]
      refine mapM_append_cons_eq_error (exists_settle_eq_ok hbefore) ?_
      rw [settle_offer, hnone]

/-- What is bound is the row of the parameters with the values they stand for. -/
theorem getElem?_bound {bound : List (String × Value)} {position : Nat}
    {parameter : String × ParameterDefault}
    (hbound : (offers arguments parameters).mapM (fun entry => settle owner entry.1 entry.2) =
      .ok bound) (hplace : parameters[position]? = some parameter) :
    ∃ value, bound[position]? = some (parameter.1, value) ∧
      arguments.valueOf? position parameter = some value := by
  obtain ⟨hlength, hpairs⟩ := mapM_eq_ok_iff.1 hbound
  obtain ⟨hlt, rfl⟩ := List.getElem?_eq_some_iff.1 hplace
  have hlt' : position < bound.length := by simpa [hlength, offers] using hlt
  -- What is bound at a place is what the offer to the parameter there was settled to.
  have hoffer : (offers arguments parameters)[position]? =
      some (parameters[position], arguments.offer? position parameters[position].1) := by
    simp [offers, hlt]
  have hpair : ((parameters[position], arguments.offer? position parameters[position].1),
      bound[position]) ∈ (offers arguments parameters).zip bound :=
    List.mem_iff_getElem?.2
      ⟨position, List.getElem?_zip_eq_some.2 ⟨hoffer, List.getElem?_eq_getElem hlt'⟩⟩
  have hsettled := hpairs _ hpair
  rw [settle_offer] at hsettled
  rw [List.getElem?_eq_getElem hlt']
  cases hvalue : arguments.valueOf? position parameters[position] with
  | none => simp [hvalue] at hsettled
  | some value =>
      rw [hvalue] at hsettled
      exact ⟨value, congrArg some (Except.ok.inj hsettled).symm, rfl⟩

theorem map_fst_bound {bound : List (String × Value)}
    (hbound : (offers arguments parameters).mapM (fun entry => settle owner entry.1 entry.2) =
      .ok bound) : bound.map (·.1) = parameters.map (·.1) := by
  have hlength : bound.length = parameters.length :=
    (mapM_eq_ok_iff.1 hbound).1.trans List.length_mapIdx
  refine List.ext_getElem (by simpa using hlength) fun position hleft hright => ?_
  rw [List.length_map] at hleft hright
  obtain ⟨value, hvalue, -⟩ := getElem?_bound hbound (List.getElem?_eq_getElem hright)
  rw [List.getElem?_eq_getElem hleft] at hvalue
  rw [List.getElem_map, List.getElem_map, Option.some.inj hvalue]

/-- Arguments that were bound were bound to the parameters in order. -/
theorem map_fst_of_bind {p : Parameters} (hp : p.table.Valid) {bound : List (String × Value)}
    (hbound : p.bind owner arguments = .ok bound) : bound.map (·.1) = p.entries.map (·.1) := by
  by_cases hsuits : arguments.Suits p.entries
  · rw [bind_of_namesSuit hp hsuits.room hsuits.toNamesSuit] at hbound
    exact map_fst_bound hbound
  · obtain ⟨fault, hmisses⟩ := exists_misses_of_not_suits hsuits
    exact nomatch hbound.symm.trans (bind_of_misses hp hmisses)

/-- **Arguments are bound by the calling convention.**  They are bound if they suit the parameters,
each parameter in order of declaration to the value that it stands for; else the first fault is the
error. -/
theorem bind_by_convention {p : Parameters} {declared : List (String × ParameterDefault)}
    (hp : p.Declares declared) (owner : String) (arguments : Arguments) :
    ((∃ bound, p.bind owner arguments = .ok bound) ↔ arguments.Suits declared) ∧
      (∀ bound, p.bind owner arguments = .ok bound →
        bound.map (·.1) = declared.map (·.1) ∧ (bound.map (·.1)).Nodup ∧
          ∀ position parameter, declared[position]? = some parameter →
            ∃ value, bound[position]? = some (parameter.1, value) ∧
              arguments.valueOf? position parameter = some value) ∧
      ∀ err, p.bind owner arguments = .error err ↔
        ∃ fault, arguments.Misses declared fault ∧ err = .arity owner fault := by
  obtain ⟨hvalid, rfl⟩ := hp.valid
  by_cases hsuits : arguments.Suits p.entries
  · obtain ⟨bound, hbound⟩ : ∃ bound, p.bind owner arguments = .ok bound :=
      exists_bind_of_suits hvalid hsuits
    have hrow := hbound
    rw [bind_of_namesSuit hvalid hsuits.room hsuits.toNamesSuit] at hrow
    refine ⟨⟨fun _ => hsuits, fun _ => ⟨bound, hbound⟩⟩, fun other hother => ?_, fun err =>
      ⟨fun herr => ?_, fun ⟨fault, hmisses, _⟩ => ?_⟩⟩
    · obtain rfl := Except.ok.inj (hbound.symm.trans hother)
      have hnames : bound.map (·.1) = p.entries.map (·.1) := map_fst_bound hrow
      exact ⟨hnames, hnames ▸ hvalid.names_nodup, fun _ _ hplace => getElem?_bound hrow hplace⟩
    · exact nomatch hbound.symm.trans herr
    · exact nomatch hbound.symm.trans (bind_of_misses hvalid hmisses)
  · -- Arguments that do not suit have a first fault, and that is reported.
    obtain ⟨fault, hmisses⟩ := exists_misses_of_not_suits hsuits
    have hfail : p.bind owner arguments = .error (.arity owner fault) :=
      bind_of_misses hvalid hmisses
    have hnone : ∀ bound, p.bind owner arguments ≠ .ok bound := by simp [hfail]
    refine ⟨⟨fun ⟨bound, hbound⟩ => absurd hbound (hnone bound), fun h => absurd h hsuits⟩,
      fun bound hbound => absurd hbound (hnone bound), fun err => ⟨fun herr => ?_, ?_⟩⟩
    · exact ⟨fault, hmisses, Except.error.inj (herr.symm.trans hfail)⟩
    · rintro ⟨other, hother, rfl⟩
      exact bind_of_misses hvalid hother

/-- A parameter that is declared again moves behind the others, and one with a default may come
before required ones: then it is bound to the default, or named although its place is taken. -/
theorem bind_by_convention_redeclared :
    ∃ p : Parameters, p.Declares [("y", .value (.integer 7)), ("z", .required), ("x", .required)] ∧
      (∃ bound, p.bind "f" { positional := [], named := [("x", .null), ("z", .null)] } = .ok bound ∧
        bound[0]? = some ("y", .integer 7)) ∧
      p.bind "f" { positional := [.null], named := [("x", .null), ("y", .null)] } =
        .error (.arity "f" (.repeated "y")) := by
  have hdeclares := (((Parameters.Declares.empty.declare "x" (.value .null)).declare "y"
    (.value (.integer 7))).declare "z" .required).declare "x" .required
  refine ⟨_, hdeclares, ?_, ?_⟩
  · obtain ⟨hbinds, hbound, -⟩ := bind_by_convention hdeclares "f"
      { positional := [], named := [("x", .null), ("z", .null)] }
    have hcomplete : ∀ name, (name, .required) ∈ [("y", .value (.integer 7)), ("z", .required),
        ("x", ParameterDefault.required)] → name ∈ ["x", "z"] := by simp
    obtain ⟨bound, hok⟩ :=
      hbinds.2 ⟨⟨by decide, by decide, by decide⟩, by decide, hcomplete⟩
    obtain ⟨value, hplace, hvalue⟩ := (hbound bound hok).2.2 0 _ rfl
    obtain rfl : Value.integer 7 = value := Option.some.inj hvalue
    exact ⟨bound, hok, hplace⟩
  · have hnamed : [("x", Value.null), ("y", Value.null)] =
        [("x", Value.null)] ++ ("y", Value.null) :: [] := rfl
    exact ((bind_by_convention hdeclares "f"
      { positional := [.null], named := [("x", .null), ("y", .null)] }).2.2 _).2
        ⟨_, .repeated (by decide) hnamed ⟨by decide, by decide, by decide⟩ (by decide) (by decide),
          rfl⟩

end Parameters

end ScriptCore
