import ScriptCore.Evaluation
import ScriptCore.Proofs.Attempt

/-!
# Bounded computations, run on a machine

The equations by which a `Run` is run, and `Run.Keeps`: whatever a run from a machine comes to
satisfies an invariant, and its outcome is calm.  `Run.Maintains` is about the machine alone, so it
holds for any values and any errors.  A run without an outcome keeps and maintains everything.
-/

namespace ScriptCore.Run

variable {α β : Type}

/-! ## Running a computation -/

theorem bind_on (run : Run α) (f : α → Run β) (m : Machine) :
    (run >>= f) m =
      match run m with
      | none => none
      | some (.ok value, m) => f value m
      | some (.error err, m) => some (.error err, m) := by
  simp only [bind, ExceptT.bind, ExceptT.mk, StateT.bind, ExceptT.bindCont, Option.bind]
  rcases run m with _ | ⟨_ | _, _⟩ <;> rfl

theorem pure_on (value : α) (m : Machine) : (pure value : Run α) m = some (.ok value, m) :=
  rfl

theorem throw_on (err : RuntimeError) (m : Machine) :
    (throw err : Run α) m = some (.error err, m) :=
  rfl

theorem get_on (m : Machine) : (get : Run Machine) m = some (.ok m, m) :=
  rfl

theorem lift_on (attempt : Attempt Machine α) (m : Machine) :
    (liftM attempt : Run α) m = some (attempt m) :=
  rfl

theorem ofOutcome_on (outcome : Except RuntimeError α) (m : Machine) :
    ofOutcome outcome m = some (outcome, m) :=
  rfl

theorem outcomeOf_on (run : Run α) (m : Machine) :
    outcomeOf run m =
      match run m with
      | none => none
      | some (outcome, m) => some (.ok outcome, m) :=
  rfl

theorem discard_on (run : Run α) (m : Machine) :
    (discard run : Run PUnit) m =
      match run m with
      | none => none
      | some (.ok _, m) => some (.ok ⟨⟩, m)
      | some (.error err, m) => some (.error err, m) := by
  simp only [discard, Functor.mapConst, ExceptT.map, ExceptT.mk, StateT.bind, Function.comp, bind,
    Option.bind]
  rcases run m with _ | ⟨_ | _, _⟩ <;> rfl

theorem watch_bind_on (strategy : Strategy) (point : Machine → Bool) (f : Unit → Run β)
    (m : Machine) :
    (strategy.watch point >>= f) m =
      if strategy.watched && point m then none else f () m := by
  rw [bind_on, Strategy.watch]
  by_cases hpoint : (strategy.watched && point m) = true <;> simp [hpoint]

/-! ## Invariants -/

/-- Whatever the run comes to has the invariant, and its outcome is calm. -/
def Keeps (run : Run α) (m : Machine) (inv : Machine → Prop) (good : α → Prop) : Prop :=
  ∀ outcome m', run m = some (outcome, m') → inv m' ∧ Calm good outcome

variable {m : Machine} {inv : Machine → Prop} {good : α → Prop} {good' : β → Prop}

theorem keeps_outOfSteps : (outOfSteps : Run α).Keeps m inv good :=
  fun _ _ hrun => nomatch hrun

theorem keeps_pure (hm : inv m) {value : α} (hvalue : good value) :
    (pure value : Run α).Keeps m inv good := by
  rintro outcome m' ⟨rfl, rfl⟩
  exact ⟨hm, hvalue⟩

theorem keeps_throw (hm : inv m) {err : RuntimeError} (herr : err.kind ≠ .internal) :
    (throw err : Run α).Keeps m inv good := by
  rintro outcome m' ⟨rfl, rfl⟩
  exact ⟨hm, herr⟩

theorem keeps_ofOutcome (hm : inv m) {outcome : Except RuntimeError α} (hcalm : Calm good outcome) :
    (ofOutcome outcome).Keeps m inv good := by
  rintro outcome m' ⟨rfl, rfl⟩
  exact ⟨hm, hcalm⟩

theorem keeps_lift (hm : inv m) {attempt : Attempt Machine α} (hattempt : attempt.Keeps inv good) :
    (liftM attempt : Run α).Keeps m inv good := by
  intro outcome m' hrun
  rw [lift_on, Option.some.injEq] at hrun
  have hkeeps := hattempt m hm
  rwa [hrun] at hkeeps

/-- A step of which is known what it comes to. -/
theorem keeps_lift_of_eq {attempt : Attempt Machine α} {outcome : Except RuntimeError α}
    {m' : Machine} (hattempt : attempt m = (outcome, m')) (hm' : inv m')
    (hcalm : Calm good outcome) : (liftM attempt : Run α).Keeps m inv good := by
  intro _ _ hrun
  rw [lift_on, hattempt] at hrun
  obtain ⟨rfl, rfl⟩ := Prod.mk.inj (Option.some.inj hrun)
  exact ⟨hm', hcalm⟩

theorem Keeps.bind {run : Run α} {f : α → Run β} (hrun : run.Keeps m inv good)
    (hf : ∀ value m', inv m' → good value → (f value).Keeps m' inv good') :
    (run >>= f).Keeps m inv good' := by
  intro outcome m' hresult
  rw [bind_on] at hresult
  rcases hfirst : run m with _ | ⟨_ | value, middle⟩
  · simp [hfirst] at hresult
  · simp only [hfirst, Option.some.injEq, Prod.mk.injEq] at hresult
    obtain ⟨rfl, rfl⟩ := hresult
    exact hrun _ _ hfirst
  · simp only [hfirst] at hresult
    obtain ⟨hinv, hgood⟩ := hrun _ _ hfirst
    exact hf value middle hinv hgood outcome m' hresult

theorem keeps_get_bind {f : Machine → Run β} (hf : (f m).Keeps m inv good') :
    ((get : Run Machine) >>= f).Keeps m inv good' :=
  hf

theorem Keeps.outcomeOf {run : Run α} (hrun : run.Keeps m inv good) :
    (outcomeOf run).Keeps m inv (Calm good) := by
  intro outcome m' hresult
  rw [outcomeOf_on] at hresult
  rcases hfirst : run m with _ | ⟨first, middle⟩
  · simp [hfirst] at hresult
  · simp only [hfirst, Option.some.injEq, Prod.mk.injEq] at hresult
    obtain ⟨rfl, rfl⟩ := hresult
    exact hrun _ _ hfirst

theorem Keeps.discard {run : Run α} (hrun : run.Keeps m inv good) :
    (discard run : Run PUnit).Keeps m inv fun _ => True := by
  intro outcome m' hresult
  rw [discard_on] at hresult
  rcases hfirst : run m with _ | ⟨_ | value, middle⟩
  · simp [hfirst] at hresult
  · simp only [hfirst, Option.some.injEq, Prod.mk.injEq] at hresult
    obtain ⟨rfl, rfl⟩ := hresult
    exact hrun _ _ hfirst
  · simp only [hfirst, Option.some.injEq, Prod.mk.injEq] at hresult
    obtain ⟨rfl, rfl⟩ := hresult
    exact ⟨(hrun _ _ hfirst).1, trivial⟩

/-! The steps that leave the machine as it is, or whose outcome is known. -/

theorem keeps_ofOutcome_bind (hm : inv m) {outcome : Except RuntimeError α}
    (hcalm : Calm good outcome) {f : α → Run β}
    (hf : ∀ value, good value → (f value).Keeps m inv good') :
    (ofOutcome outcome >>= f).Keeps m inv good' := by
  cases outcome with
  | ok value => exact hf value hcalm
  | error err => exact keeps_throw hm hcalm

theorem keeps_lift_bind_ok {attempt : Attempt Machine α} {value : α} {m' : Machine}
    (hattempt : attempt m = (.ok value, m')) {f : α → Run β}
    (hf : (f value).Keeps m' inv good') : ((liftM attempt : Run α) >>= f).Keeps m inv good' := by
  intro outcome final hresult
  rw [bind_on, lift_on, hattempt] at hresult
  exact hf outcome final hresult

theorem keeps_lift_bind_error {attempt : Attempt Machine α} {err : RuntimeError} {m' : Machine}
    (hattempt : attempt m = (.error err, m')) (hm' : inv m') (herr : err.kind ≠ .internal)
    {f : α → Run β} : ((liftM attempt : Run α) >>= f).Keeps m inv good' := by
  intro outcome final hresult
  rw [bind_on, lift_on, hattempt] at hresult
  simp only [Option.some.injEq, Prod.mk.injEq] at hresult
  obtain ⟨rfl, rfl⟩ := hresult
  exact ⟨hm', herr⟩

theorem keeps_watch_bind {strategy : Strategy} {point : Machine → Bool} {f : Unit → Run β}
    (hf : (f ()).Keeps m inv good') : (strategy.watch point >>= f).Keeps m inv good' := by
  intro outcome final hresult
  rw [watch_bind_on] at hresult
  split at hresult
  · nomatch hresult
  · exact hf outcome final hresult

theorem Keeps.mono {run : Run α} {inv' : Machine → Prop} {better : α → Prop}
    (hrun : run.Keeps m inv good) (hinv : ∀ m', inv m' → inv' m')
    (hgood : ∀ value, good value → better value) : run.Keeps m inv' better :=
  fun outcome m' hresult =>
    ⟨hinv m' (hrun outcome m' hresult).1, (hrun outcome m' hresult).2.mono hgood⟩

/-! ## Invariants whatever the outcome -/

/-- Whatever the run comes to has the invariant, even if it ends with an error. -/
def Maintains (run : Run α) (m : Machine) (inv : Machine → Prop) : Prop :=
  ∀ outcome m', run m = some (outcome, m') → inv m'

theorem maintains_outOfSteps : (outOfSteps : Run α).Maintains m inv :=
  fun _ _ hrun => nomatch hrun

theorem maintains_pure (hm : inv m) (value : α) : (pure value : Run α).Maintains m inv := by
  rintro outcome m' ⟨rfl, rfl⟩
  exact hm

theorem maintains_throw (hm : inv m) (err : RuntimeError) :
    (throw err : Run α).Maintains m inv := by
  rintro outcome m' ⟨rfl, rfl⟩
  exact hm

theorem maintains_ofOutcome (hm : inv m) (outcome : Except RuntimeError α) :
    (ofOutcome outcome).Maintains m inv := by
  rintro outcome m' ⟨rfl, rfl⟩
  exact hm

theorem maintains_lift {attempt : Attempt Machine α} (hattempt : inv (attempt m).2) :
    (liftM attempt : Run α).Maintains m inv := by
  intro outcome m' hrun
  rw [lift_on, Option.some.injEq] at hrun
  rwa [hrun] at hattempt

theorem maintains_lift_bind_ok {attempt : Attempt Machine α} {value : α} {m' : Machine}
    (hattempt : attempt m = (.ok value, m')) {f : α → Run β} (hf : (f value).Maintains m' inv) :
    ((liftM attempt : Run α) >>= f).Maintains m inv := by
  intro outcome final hresult
  rw [bind_on, lift_on, hattempt] at hresult
  exact hf outcome final hresult

theorem maintains_lift_bind_error {attempt : Attempt Machine α} {err : RuntimeError} {m' : Machine}
    (hattempt : attempt m = (.error err, m')) (hm' : inv m') {f : α → Run β} :
    ((liftM attempt : Run α) >>= f).Maintains m inv := by
  intro outcome final hresult
  rw [bind_on, lift_on, hattempt] at hresult
  exact maintains_throw hm' err outcome final hresult

theorem Maintains.bind {run : Run α} {f : α → Run β} (hrun : run.Maintains m inv)
    (hf : ∀ value m', inv m' → (f value).Maintains m' inv) : (run >>= f).Maintains m inv := by
  intro outcome m' hresult
  rw [bind_on] at hresult
  rcases hfirst : run m with _ | ⟨_ | value, middle⟩
  · simp [hfirst] at hresult
  · simp only [hfirst, Option.some.injEq, Prod.mk.injEq] at hresult
    obtain ⟨rfl, rfl⟩ := hresult
    exact hrun _ _ hfirst
  · simp only [hfirst] at hresult
    exact hf value middle (hrun _ _ hfirst) outcome m' hresult

theorem maintains_get_bind {f : Machine → Run β} (hf : (f m).Maintains m inv) :
    ((get : Run Machine) >>= f).Maintains m inv :=
  hf

theorem maintains_ofOutcome_bind (hm : inv m) (outcome : Except RuntimeError α) {f : α → Run β}
    (hf : ∀ value, (f value).Maintains m inv) : (ofOutcome outcome >>= f).Maintains m inv := by
  cases outcome with
  | ok value => exact hf value
  | error err => exact maintains_throw hm err

theorem maintains_watch_bind {strategy : Strategy} {point : Machine → Bool} {f : Unit → Run β}
    (hf : (f ()).Maintains m inv) : (strategy.watch point >>= f).Maintains m inv := by
  intro outcome final hresult
  rw [watch_bind_on] at hresult
  split at hresult
  · nomatch hresult
  · exact hf outcome final hresult

theorem Maintains.outcomeOf {run : Run α} (hrun : run.Maintains m inv) :
    (outcomeOf run).Maintains m inv := by
  intro outcome m' hresult
  rw [outcomeOf_on] at hresult
  rcases hfirst : run m with _ | ⟨first, middle⟩
  · simp [hfirst] at hresult
  · simp only [hfirst, Option.some.injEq, Prod.mk.injEq] at hresult
    obtain ⟨rfl, rfl⟩ := hresult
    exact hrun _ _ hfirst

theorem Maintains.discard {run : Run α} (hrun : run.Maintains m inv) :
    (discard run : Run PUnit).Maintains m inv := by
  intro outcome m' hresult
  rw [discard_on] at hresult
  rcases hfirst : run m with _ | ⟨_ | value, middle⟩
  · simp [hfirst] at hresult
  all_goals
    simp only [hfirst, Option.some.injEq, Prod.mk.injEq] at hresult
    obtain ⟨rfl, rfl⟩ := hresult
    exact hrun _ _ hfirst

end ScriptCore.Run
