import ScriptCore.Error

/-!
# Computations that may fail, run on a state

The equations by which a computation written with `do` is run on a state.  Stating them once keeps
the layers of the monad out of the other proofs.

`Calm good outcome` says that an outcome is a value of some kind or an error that is not internal,
and `Attempt.Keeps inv good attempt` that a computation keeps an invariant of the state and has a
calm outcome; `Attempt.Maintains inv attempt` says that it keeps the invariant whatever its outcome.
`Attempt.Agrees related attempt` says that a computation does not tell related states apart.  All of
them pass through sequences, so a computation is dealt with step by step.
-/

namespace ScriptCore

variable {σ α β : Type}

/-! ## Calm outcomes -/

/-- A good value, or an error that is not internal. -/
def Calm (good : α → Prop) : Except RuntimeError α → Prop
  | .ok value => good value
  | .error err => err.kind ≠ .internal

@[simp] theorem calm_ok {good : α → Prop} {value : α} : Calm good (.ok value) ↔ good value :=
  Iff.rfl

@[simp] theorem calm_error {good : α → Prop} {err : RuntimeError} :
    Calm good (.error err : Except RuntimeError α) ↔ err.kind ≠ .internal :=
  Iff.rfl

theorem Calm.mono {good better : α → Prop} {outcome : Except RuntimeError α}
    (hcalm : Calm good outcome) (himp : ∀ value, good value → better value) :
    Calm better outcome := by
  cases outcome with
  | ok value => exact himp value hcalm
  | error err => exact hcalm

theorem Calm.bind {good : α → Prop} {good' : β → Prop} {outcome : Except RuntimeError α}
    {next : α → Except RuntimeError β} (hcalm : Calm good outcome)
    (hnext : ∀ value, good value → Calm good' (next value)) : Calm good' (outcome >>= next) := by
  cases outcome with
  | ok value => exact hnext value hcalm
  | error err => exact hcalm

theorem Calm.map {good : α → Prop} {good' : β → Prop} {outcome : Except RuntimeError α}
    {change : α → β} (hcalm : Calm good outcome)
    (hchange : ∀ value, good value → good' (change value)) :
    Calm good' (outcome.map change) := by
  cases outcome with
  | ok value => exact hchange value hcalm
  | error err => exact hcalm

/-- An outcome that is calm is not the error of a dead record. -/
theorem Calm.ne_deadRecord {good : α → Prop} {outcome : Except RuntimeError α}
    (hcalm : Calm good outcome) (index : Nat) : outcome ≠ .error (.deadRecord index) := by
  rintro rfl
  exact hcalm rfl

/-! ## Rows of steps that can fail -/

theorem bind_eq_ok_iff {ε : Type} {first : Except ε α} {next : α → Except ε β} {result : β} :
    (first >>= next) = .ok result ↔ ∃ x, first = .ok x ∧ next x = .ok result := by
  cases first <;> simp [bind, Except.bind]

theorem bind_eq_error_iff {ε : Type} {first : Except ε α} {next : α → Except ε β} {err : ε} :
    (first >>= next) = .error err ↔
      first = .error err ∨ ∃ x, first = .ok x ∧ next x = .error err := by
  cases first <;> simp [bind, Except.bind]

/-- A row of steps succeeds if each of them does, with the row of their results. -/
theorem mapM_eq_ok_iff {ε : Type} {step : α → Except ε β} {l : List α} {results : List β} :
    l.mapM step = .ok results ↔
      results.length = l.length ∧ ∀ pair ∈ l.zip results, step pair.1 = .ok pair.2 := by
  induction l generalizing results with
  | nil => cases results <;> simp [pure, Except.pure]
  | cons x rest ih =>
      simp only [List.mapM_cons, bind_eq_ok_iff, ih, pure, Except.pure, Except.ok.injEq]
      cases results with
      | nil => simp
      | cons result others =>
          simp only [List.cons.injEq, List.length_cons, List.zip_cons_cons, List.forall_mem_cons]
          grind

theorem mapM_congr {ε : Type} {step step' : α → Except ε β} {l : List α}
    (hsame : ∀ x ∈ l, step x = step' x) : l.mapM step = l.mapM step' := by
  induction l with
  | nil => rfl
  | cons x rest ih =>
      rw [List.mapM_cons, List.mapM_cons, hsame x List.mem_cons_self,
        ih fun other hother => hsame other (List.mem_cons_of_mem _ hother)]

/-- A row of steps each of which succeeds has a row of results. -/
theorem exists_mapM_eq_ok {ε : Type} {step : α → Except ε β} {l : List α}
    (hall : ∀ x ∈ l, ∃ result, step x = .ok result) : ∃ results, l.mapM step = .ok results := by
  induction l with
  | nil => exact ⟨[], rfl⟩
  | cons x rest ih =>
      obtain ⟨result, hfirst⟩ := hall x List.mem_cons_self
      obtain ⟨results, hrest⟩ := ih fun other hother => hall other (List.mem_cons_of_mem _ hother)
      exact ⟨result :: results, by rw [List.mapM_cons, hfirst, hrest]; rfl⟩

/-- The first step that fails ends a row of steps. -/
theorem mapM_append_cons_eq_error {ε : Type} {step : α → Except ε β} {before after : List α} {x : α}
    {err : ε} (hbefore : ∀ y ∈ before, ∃ result, step y = .ok result) (hx : step x = .error err) :
    (before ++ x :: after).mapM step = .error err := by
  obtain ⟨results, hresults⟩ := exists_mapM_eq_ok hbefore
  rw [List.mapM_append, hresults, List.mapM_cons, hx]
  rfl

/-- A row of steps fails as one of them does. -/
theorem exists_of_mapM_eq_error {ε : Type} {step : α → Except ε β} {l : List α} {err : ε}
    (hfail : l.mapM step = .error err) : ∃ x ∈ l, step x = .error err := by
  induction l with
  | nil => nomatch hfail
  | cons x rest ih =>
      rw [List.mapM_cons, bind_eq_error_iff] at hfail
      rcases hfail with hfirst | ⟨result, -, hfail⟩
      · exact ⟨x, List.mem_cons_self, hfirst⟩
      · rcases bind_eq_error_iff.1 hfail with hrest | ⟨results, -, hnot⟩
        · obtain ⟨y, hy, hstep⟩ := ih hrest
          exact ⟨y, List.mem_cons_of_mem _ hy, hstep⟩
        · nomatch hnot

namespace Attempt

/-! ## Running a computation -/

/-- A value is handed on together with the state, an error ends the computation. -/
theorem bind_on (attempt : Attempt σ α) (f : α → Attempt σ β) (state : σ) :
    (attempt >>= f) state =
      match attempt state with
      | (.ok value, state) => f value state
      | (.error err, state) => (.error err, state) := by
  simp only [bind, ExceptT.bind, ExceptT.mk, StateT.bind, ExceptT.bindCont]
  rcases attempt state with ⟨_ | _, _⟩ <;> rfl

theorem pure_on (value : α) (state : σ) : (pure value : Attempt σ α) state = (.ok value, state) :=
  rfl

theorem throw_on (err : RuntimeError) (state : σ) :
    (throw err : Attempt σ α) state = (.error err, state) :=
  rfl

theorem get_on (state : σ) : (get : Attempt σ σ) state = (.ok state, state) :=
  rfl

theorem modify_on (change : σ → σ) (state : σ) :
    (modify change : Attempt σ PUnit) state = (.ok ⟨⟩, change state) :=
  rfl

theorem discard_on (attempt : Attempt σ α) (state : σ) :
    (discard attempt : Attempt σ PUnit) state =
      match attempt state with
      | (.ok _, state) => (.ok ⟨⟩, state)
      | (.error err, state) => (.error err, state) := by
  simp only [discard, Functor.mapConst, ExceptT.map, ExceptT.mk, StateT.bind, Function.comp, bind]
  rcases attempt state with ⟨_ | _, _⟩ <;> rfl

/-- A handler goes on from the state in which the failure left things. -/
theorem tryCatch_on (attempt : Attempt σ α) (handle : RuntimeError → Attempt σ α) (state : σ) :
    (tryCatch attempt handle : Attempt σ α) state =
      match attempt state with
      | (.ok value, state) => (.ok value, state)
      | (.error err, state) => handle err state := by
  simp only [tryCatch, tryCatchThe, MonadExceptOf.tryCatch, ExceptT.tryCatch, ExceptT.mk,
    StateT.bind, bind]
  rcases attempt state with ⟨_ | _, _⟩ <;> rfl

/-! ## Invariants -/

/-- From a state with the invariant the computation comes to one with the invariant, and its outcome
is calm. -/
def Keeps (inv : σ → Prop) (good : α → Prop) (attempt : Attempt σ α) : Prop :=
  ∀ state, inv state → inv (attempt state).2 ∧ Calm good (attempt state).1

variable {inv : σ → Prop} {good : α → Prop} {good' : β → Prop}

theorem Keeps.pure {value : α} (hvalue : good value) :
    Keeps inv good (Pure.pure value : Attempt σ α) :=
  fun _ hstate => ⟨hstate, hvalue⟩

theorem Keeps.reading {read : σ → Except RuntimeError α}
    (hread : ∀ state, inv state → Calm good (read state)) : Keeps inv good (reading read) :=
  fun state hstate => ⟨hstate, hread state hstate⟩

theorem Keeps.bind {attempt : Attempt σ α} {next : α → Attempt σ β}
    (hattempt : Keeps inv good attempt)
    (hnext : ∀ value, good value → Keeps inv good' (next value)) :
    Keeps inv good' (attempt >>= next) := by
  intro state hstate
  rw [bind_on]
  obtain ⟨hinv, hcalm⟩ := hattempt state hstate
  rcases hresult : attempt state with ⟨_ | value, after⟩
  · rw [hresult] at hinv hcalm
    exact ⟨hinv, hcalm⟩
  · rw [hresult] at hinv hcalm
    exact hnext value hcalm after hinv

theorem Keeps.mapM {attempt : α → Attempt σ β} (values : List α)
    (hattempt : ∀ value ∈ values, Keeps inv good' (attempt value)) :
    Keeps inv (fun results => ∀ result ∈ results, good' result) (values.mapM attempt) := by
  induction values with
  | nil => exact Keeps.pure (by simp)
  | cons value rest ih =>
      rw [List.mapM_cons]
      refine Keeps.bind (hattempt value List.mem_cons_self) fun result hresult => ?_
      refine Keeps.bind (ih fun other hother => hattempt other (List.mem_cons_of_mem _ hother)) ?_
      exact fun results hresults => Keeps.pure (by simpa using ⟨hresult, hresults⟩)

/-! ## Invariants whatever the outcome -/

/-- From a state with the invariant the computation comes to one with the invariant, even if it
fails. -/
def Maintains (inv : σ → Prop) (attempt : Attempt σ α) : Prop :=
  ∀ state, inv state → inv (attempt state).2

theorem Maintains.pure (value : α) : Maintains inv (Pure.pure value : Attempt σ α) :=
  fun _ hstate => hstate

theorem Maintains.throw (err : RuntimeError) :
    Maintains inv (MonadExcept.throw err : Attempt σ α) :=
  fun _ hstate => hstate

theorem Maintains.reading (read : σ → Except RuntimeError α) : Maintains inv (reading read) :=
  fun _ hstate => hstate

theorem Maintains.bind {attempt : Attempt σ α} {next : α → Attempt σ β}
    (hattempt : Maintains inv attempt) (hnext : ∀ value, Maintains inv (next value)) :
    Maintains inv (attempt >>= next) := by
  intro state hstate
  rw [bind_on]
  have hinv := hattempt state hstate
  rcases hresult : attempt state with ⟨_ | value, after⟩
  · rwa [hresult] at hinv
  · rw [hresult] at hinv
    exact hnext value after hinv

theorem Maintains.discard {attempt : Attempt σ α} (hattempt : Maintains inv attempt) :
    Maintains inv (discard attempt : Attempt σ PUnit) := by
  intro state hstate
  rw [discard_on]
  have hinv := hattempt state hstate
  rcases hresult : attempt state with ⟨_ | value, after⟩ <;> rwa [hresult] at hinv

theorem Maintains.tryCatch {attempt : Attempt σ α} {handle : RuntimeError → Attempt σ α}
    (hattempt : Maintains inv attempt) (hhandle : ∀ err, Maintains inv (handle err)) :
    Maintains inv (MonadExcept.tryCatch attempt handle) := by
  intro state hstate
  rw [tryCatch_on]
  have hinv := hattempt state hstate
  rcases hresult : attempt state with ⟨err | value, after⟩
  · rw [hresult] at hinv
    exact hhandle err after hinv
  · rwa [hresult] at hinv

theorem Maintains.mapM {attempt : α → Attempt σ β} (values : List α)
    (hattempt : ∀ value, Maintains inv (attempt value)) : Maintains inv (values.mapM attempt) := by
  induction values with
  | nil => exact .pure []
  | cons value rest ih =>
      rw [List.mapM_cons]
      exact .bind (hattempt value) fun _ => .bind ih fun _ => .pure _

theorem Maintains.forM {attempt : α → Attempt σ PUnit} (values : List α)
    (hattempt : ∀ value, Maintains inv (attempt value)) : Maintains inv (values.forM attempt) := by
  induction values with
  | nil => exact .pure _
  | cons value rest ih => exact .bind (hattempt value) fun _ => ih

/-! ## States that cannot be told apart -/

/-- From related states the computation comes to the same outcome and to related states. -/
def Agrees (related : σ → σ → Prop) (attempt : Attempt σ α) : Prop :=
  ∀ state state', related state state' →
    (attempt state').1 = (attempt state).1 ∧ related (attempt state).2 (attempt state').2

variable {related : σ → σ → Prop}

theorem Agrees.pure (value : α) : Agrees related (Pure.pure value : Attempt σ α) :=
  fun _ _ hstates => ⟨rfl, hstates⟩

theorem Agrees.throw (err : RuntimeError) :
    Agrees related (MonadExcept.throw err : Attempt σ α) :=
  fun _ _ hstates => ⟨rfl, hstates⟩

theorem Agrees.reading {read : σ → Except RuntimeError α}
    (hread : ∀ state state', related state state' → read state' = read state) :
    Agrees related (reading read) :=
  fun state state' hstates => ⟨hread state state' hstates, hstates⟩

theorem Agrees.bind {attempt : Attempt σ α} {next : α → Attempt σ β}
    (hattempt : Agrees related attempt) (hnext : ∀ value, Agrees related (next value)) :
    Agrees related (attempt >>= next) := by
  intro state state' hstates
  obtain ⟨houtcome, hafter⟩ := hattempt state state' hstates
  rw [bind_on, bind_on]
  rcases hfirst : attempt state with ⟨_ | value, after⟩ <;>
    rcases hfirst' : attempt state' with ⟨_ | value', after'⟩ <;>
    simp only [hfirst, hfirst', Except.ok.injEq, Except.error.injEq, reduceCtorEq]
      at houtcome hafter
  · exact ⟨by rw [houtcome], hafter⟩
  · subst houtcome
    exact hnext _ after after' hafter

theorem Agrees.mapM {attempt : α → Attempt σ β} (values : List α)
    (hattempt : ∀ value, Agrees related (attempt value)) :
    Agrees related (values.mapM attempt) := by
  induction values with
  | nil => exact .pure []
  | cons value rest ih =>
      rw [List.mapM_cons]
      exact .bind (hattempt value) fun _ => .bind ih fun _ => .pure _

end Attempt

end ScriptCore
