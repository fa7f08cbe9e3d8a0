import ScriptCore.Proofs.Attempt
import ScriptCore.Proofs.Heap.Sound

/-!
# Binding arguments

Binding arguments to parameters gives each parameter an argument or its default, so usable
arguments and usable defaults are bound to usable values, and whatever does not fit is an error of
the program.

Nothing is said here about which argument comes to which parameter.  For an invariant it is enough
that every value in the slots is an argument, that every value that is put in later is one, too, and
that a slot that stays vacant is settled by the default (`Parameters.Fit.calm_bind`).
-/

namespace ScriptCore

variable {usable : Value → Prop} {α β : Type}

/-- The arguments of a call are usable. -/
structure Arguments.Fit (usable : Value → Prop) (arguments : Arguments) : Prop where
  positional : ∀ value ∈ arguments.positional, usable value
  named : ∀ entry ∈ arguments.named, usable entry.2

theorem Arguments.Fit.nth {arguments : Arguments} (hfit : arguments.Fit usable)
    (hnull : usable .null) (index : Nat) : usable (arguments.nth index) := by
  rw [Arguments.nth, List.getD_eq_getElem?_getD]
  cases hvalue : arguments.positional[index]? with
  | none => exact hnull
  | some value => exact hfit.positional value (List.mem_of_getElem? hvalue)

theorem Arguments.calm_checkCount (arguments : Arguments) (owner : String) (least most : Nat) :
    Calm (fun _ => True) (arguments.checkCount owner least most) := by
  unfold Arguments.checkCount
  dsimp only
  split
  · exact fun hkind => nomatch hkind
  · trivial

theorem calm_foldlM {good : α → Prop} {step : α → β → Except RuntimeError α} {values : List β}
    (hstep : ∀ state, ∀ value ∈ values, good state → Calm good (step state value)) {state : α}
    (hstate : good state) : Calm good (values.foldlM step state) := by
  induction values generalizing state with
  | nil => exact hstate
  | cons value rest ih =>
      rw [List.foldlM_cons]
      refine (hstep state value List.mem_cons_self hstate).bind fun after hafter => ?_
      exact ih (fun state other hother => hstep state other (List.mem_cons_of_mem _ hother)) hafter

theorem calm_mapM {good : β → Prop} {step : α → Except RuntimeError β} {values : List α}
    (hstep : ∀ value ∈ values, Calm good (step value)) :
    Calm (fun results => ∀ result ∈ results, good result) (values.mapM step) := by
  induction values with
  | nil => exact fun result hresult => absurd hresult List.not_mem_nil
  | cons value rest ih =>
      rw [List.mapM_cons]
      refine (hstep value List.mem_cons_self).bind fun result hresult => ?_
      refine (ih fun other hother => hstep other (List.mem_cons_of_mem _ hother)).bind ?_
      intro results hresults other hother
      rcases List.mem_cons.1 hother with rfl | hrest
      · exact hresult
      · exact hresults other hrest

namespace Parameters

/-! ## Declaring -/

theorem Fit.declare {p : Parameters} (hp : p.Fit usable) (name : String)
    {default : ParameterDefault} (hdefault : ∀ value, default = .value value → usable value) :
    (p.declare name default).Fit usable := by
  obtain ⟨hvalid, hentries⟩ := hp.valid.set name default
  refine ⟨hvalid, fun other value hmem => ?_⟩
  rw [entries, Parameters.declare, hentries, List.mem_append, List.mem_filter,
    List.mem_singleton] at hmem
  rcases hmem with ⟨hbefore, -⟩ | hnew
  · exact hp.defaults other value hbefore
  · exact hdefault value (Prod.mk.inj hnew).2.symm

theorem fit_ofList {declarations : List (String × ParameterDefault)}
    (hdefaults : ∀ name value, (name, .value value) ∈ declarations → usable value) :
    (ofList declarations).Fit usable := by
  suffices hfold : ∀ (declarations : List (String × ParameterDefault)) (p : Parameters),
      p.Fit usable → (∀ name value, (name, .value value) ∈ declarations → usable value) →
      (declarations.foldl (fun p declared => p.declare declared.1 declared.2) p).Fit usable by
    exact hfold declarations empty fit_empty hdefaults
  intro declarations
  induction declarations with
  | nil => exact fun p hp _ => hp
  | cons declaration rest ih =>
      intro p hp hall
      obtain ⟨name, default⟩ := declaration
      refine ih _ (hp.declare name ?_) fun other value hmem =>
        hall other value (List.mem_cons_of_mem _ hmem)
      rintro value rfl
      exact hall name value List.mem_cons_self

/-! ## Binding -/

theorem calm_fillNamed (names : List String) (owner : String) {slots : List (Option Value)}
    (hslots : ∀ value, some value ∈ slots → usable value) {argument : String × Value}
    (hargument : usable argument.2) :
    Calm (fun filled => ∀ value, some value ∈ filled → usable value)
      (fillNamed names owner slots argument) := by
  unfold fillNamed
  split
  · exact fun hkind => nomatch hkind
  · split
    · exact fun hkind => nomatch hkind
    · intro value hvalue
      rcases List.mem_or_eq_of_mem_set hvalue with hbefore | hnew
      · exact hslots value hbefore
      · exact Option.some.inj hnew ▸ hargument

theorem calm_settle (owner : String) {parameter : String × ParameterDefault} {slot : Option Value}
    (hdefault : ∀ value, parameter.2 = .value value → usable value)
    (hslot : ∀ value, slot = some value → usable value) :
    Calm (fun bound : String × Value => usable bound.2) (settle owner parameter slot) := by
  unfold settle
  split
  · exact hslot _ rfl
  · exact hdefault _ ‹_›
  · exact fun hkind => nomatch hkind

/-- Usable arguments and defaults are bound to usable values. -/
theorem Fit.calm_bind {p : Parameters} (hp : p.Fit usable) (owner : String) {arguments : Arguments}
    (hfit : arguments.Fit usable) :
    Calm (fun bound => ∀ entry ∈ bound, usable entry.2) (p.bind owner arguments) := by
  unfold Parameters.bind
  dsimp only
  split
  · exact fun hkind => nomatch hkind
  · -- At first the slots hold positional arguments and nothing else.
    have hslots : ∀ value, some value ∈ arguments.positional.map some ++
        List.replicate (p.count - arguments.positional.length) none → usable value := by
      intro value hvalue
      rcases List.mem_append.1 hvalue with hgiven | hnone
      · exact hfit.positional value (by simpa using hgiven)
      · simp at hnone
    -- Each named argument is put into a slot or refused.
    have hfilled : ∀ slots : List (Option Value), (∀ value, some value ∈ slots → usable value) →
        Calm (fun filled => ∀ value, some value ∈ filled → usable value)
          (arguments.named.foldlM (fillNamed p.table.names owner) slots) := fun slots =>
      calm_foldlM fun _ argument hargument hbefore =>
        calm_fillNamed _ _ hbefore (hfit.named argument hargument)
    refine (hfilled _ hslots).bind fun filled hall => calm_mapM fun entry hentry => ?_
    obtain ⟨⟨name, default⟩, slot⟩ := entry
    obtain ⟨hparameter, hslot⟩ := List.of_mem_zip hentry
    refine calm_settle owner (fun value hvalue => ?_) fun value hvalue => ?_
    · obtain rfl : default = .value value := hvalue
      exact hp.defaults name value hparameter
    · exact hall value (hvalue ▸ hslot)

end Parameters

end ScriptCore
