import ScriptCore.Proofs.Machine.Related
import ScriptCore.Proofs.Run

/-!
# Runs that track each other

`Settles runs m result` says that with enough steps the runs come to a result.  `Follows` says of a
run on one machine and runs on another that whatever the first comes to, the others settle on
something that fits it; `Tracks` that on a related machine they settle on the same outcome and on a
machine that is related again.

All of them pass through sequences, so that two evaluators can be compared function by function.

The runs on the second machine come with a number of steps as a parameter, and only the limit
counts: the second evaluator may need more steps than the first one took.  On the first machine one
run is enough, since the comparison is by induction on its steps.
-/

namespace ScriptCore.Run

open Machine

variable {α β : Type}

/-! ## Results with enough steps -/

/-- With enough steps the runs come to the result. -/
def Settles (runs : Nat → Run α) (m : Machine) (result : Except RuntimeError α × Machine) : Prop :=
  ∃ bound, ∀ steps, bound ≤ steps → runs steps m = some result

variable {runs runs' : Nat → Run α} {next : Nat → α → Run β} {m m' : Machine}
  {outcome : Except RuntimeError α}

theorem Settles.of_eq {result : Except RuntimeError α × Machine}
    (hruns : ∀ steps, runs steps m = some result) : Settles runs m result :=
  ⟨0, fun steps _ => hruns steps⟩

/-- What the steps after the first settle on. -/
theorem Settles.succ {result : Except RuntimeError α × Machine}
    (hruns : ∀ steps, runs (steps + 1) = runs' steps) (hsettles : Settles runs' m result) :
    Settles runs m result := by
  obtain ⟨bound, hbound⟩ := hsettles
  refine ⟨bound + 1, fun steps hsteps => ?_⟩
  obtain ⟨before, rfl⟩ : ∃ before, steps = before + 1 := ⟨steps - 1, by omega⟩
  rw [hruns]
  exact hbound before (by omega)

theorem Settles.bind {value : α} {result : Except RuntimeError β × Machine}
    (hfirst : Settles runs m (.ok value, m')) (hnext : Settles (next · value) m' result) :
    Settles (fun steps => runs steps >>= next steps) m result := by
  obtain ⟨bound, hbound⟩ := hfirst
  obtain ⟨bound', hbound'⟩ := hnext
  refine ⟨max bound bound', fun steps hsteps => ?_⟩
  dsimp only
  rw [bind_on, hbound steps (by omega)]
  exact hbound' steps (by omega)

theorem Settles.bind_error {err : RuntimeError} (hfirst : Settles runs m (.error err, m')) :
    Settles (fun steps => runs steps >>= next steps) m (.error err, m') := by
  obtain ⟨bound, hbound⟩ := hfirst
  refine ⟨bound, fun steps hsteps => ?_⟩
  dsimp only
  rw [bind_on, hbound steps hsteps]

theorem Settles.outcomeOf (hsettles : Settles runs m (outcome, m')) :
    Settles (fun steps => outcomeOf (runs steps)) m (.ok outcome, m') := by
  obtain ⟨bound, hbound⟩ := hsettles
  refine ⟨bound, fun steps hsteps => ?_⟩
  dsimp only
  rw [outcomeOf_on, hbound steps hsteps]

theorem Settles.discard {value : α} (hsettles : Settles runs m (.ok value, m')) :
    Settles (fun steps => (Functor.discard (runs steps) : Run PUnit)) m (.ok ⟨⟩, m') := by
  obtain ⟨bound, hbound⟩ := hsettles
  refine ⟨bound, fun steps hsteps => ?_⟩
  dsimp only
  rw [discard_on, hbound steps hsteps]

theorem Settles.discard_error {err : RuntimeError} (hsettles : Settles runs m (.error err, m')) :
    Settles (fun steps => (Functor.discard (runs steps) : Run PUnit)) m (.error err, m') := by
  obtain ⟨bound, hbound⟩ := hsettles
  refine ⟨bound, fun steps hsteps => ?_⟩
  dsimp only
  rw [discard_on, hbound steps hsteps]

/-- A step that leaves the machine where it is known. -/
theorem Settles.lift_bind {attempt : Attempt Machine α} {value : α}
    {result : Except RuntimeError β × Machine} (hattempt : attempt m = (.ok value, m'))
    (hnext : Settles (next · value) m' result) :
    Settles (fun steps => (liftM attempt : Run α) >>= next steps) m result :=
  Settles.bind (.of_eq fun _ => by rw [lift_on, hattempt]) hnext

/-! ## Following -/

/-- Whatever the run comes to, the runs settle on a result that fits it. -/
def Follows (m d : Machine)
    (fits : Except RuntimeError α × Machine → Except RuntimeError β × Machine → Prop) (run : Run α)
    (runs : Nat → Run β) : Prop :=
  ∀ result, run m = some result → ∃ result', Settles runs d result' ∧ fits result result'

variable {γ δ : Type} {d d' : Machine}
  {fits fits' : Except RuntimeError γ × Machine → Except RuntimeError δ × Machine → Prop}
  {last : Run γ} {lasts lasts' : Nat → Run δ} {after : α → Run γ} {nexts : Nat → β → Run δ}

theorem follows_outOfSteps : Follows m d fits outOfSteps lasts :=
  fun _ hrun => nomatch hrun

theorem Follows.unfold (hruns : ∀ steps, lasts (steps + 1) = lasts' steps)
    (hfollows : Follows m d fits last lasts') : Follows m d fits last lasts := by
  intro result hrun
  obtain ⟨result', hsettles, hfits⟩ := hfollows result hrun
  exact ⟨result', hsettles.succ hruns, hfits⟩

theorem Follows.mono (hfollows : Follows m d fits last lasts)
    (hfits : ∀ result result', fits result result' → fits' result result') :
    Follows m d fits' last lasts := by
  intro result hrun
  obtain ⟨result', hsettles, hresult⟩ := hfollows result hrun
  exact ⟨result', hsettles, hfits result result' hresult⟩

theorem follows_ofOutcome {outcome : Except RuntimeError γ} {outcome' : Except RuntimeError δ}
    (hfits : fits (outcome, m) (outcome', d)) :
    Follows m d fits (ofOutcome outcome) fun _ => ofOutcome outcome' := by
  rintro _ ⟨rfl⟩
  exact ⟨_, .of_eq fun _ => rfl, hfits⟩

theorem follows_ofOutcome_bind {value : α} {value' : β}
    (hfollows : Follows m d fits (after value) (nexts · value')) :
    Follows m d fits (ofOutcome (.ok value) >>= after)
      fun steps => ofOutcome (.ok value') >>= nexts steps :=
  hfollows

theorem follows_get_bind {f : Machine → Run γ} {f' : Nat → Machine → Run δ}
    (hfollows : Follows m d fits (f m) (f' · d)) :
    Follows m d fits (get >>= f) fun steps => get >>= f' steps := by
  intro result hrun
  obtain ⟨result', hsettles, hfits⟩ := hfollows result hrun
  exact ⟨result', .bind (.of_eq fun _ => rfl) hsettles, hfits⟩

/-- Steps of which is known what they come to. -/
theorem follows_lift_bind {attempt : Attempt Machine α} {attempt' : Attempt Machine β} {value : α}
    {value' : β} (hattempt : attempt m = (.ok value, m'))
    (hattempt' : attempt' d = (.ok value', d'))
    (hfollows : Follows m' d' fits (after value) (nexts · value')) :
    Follows m d fits ((liftM attempt : Run α) >>= after)
      fun steps => (liftM attempt' : Run β) >>= nexts steps := by
  intro result hrun
  rw [bind_on, lift_on, hattempt] at hrun
  obtain ⟨result', hsettles, hfits⟩ := hfollows result hrun
  exact ⟨result', .lift_bind hattempt' hsettles, hfits⟩

/-- A watched run has an outcome only if it is not at the point that is watched for. -/
theorem follows_watch_bind {watching strategy : Strategy} (hwatched : watching.watched = true)
    (hunwatched : strategy.watched = false) {point : Machine → Bool} {f : Unit → Run γ}
    {f' : Nat → Unit → Run δ} (hfollows : point m = false → Follows m d fits (f ()) (f' · ())) :
    Follows m d fits (watching.watch point >>= f)
      fun steps => strategy.watch point >>= f' steps := by
  intro result hrun
  rw [bind_on, Strategy.watch, hwatched, Bool.true_and] at hrun
  cases hpoint : point m with
  | true => simp [hpoint] at hrun
  | false =>
      simp only [hpoint, Bool.false_eq_true, if_false] at hrun
      obtain ⟨result', hsettles, hfits⟩ := hfollows hpoint result hrun
      refine ⟨result', .bind (.of_eq fun _ => ?_) hsettles, hfits⟩
      rw [Strategy.watch, hunwatched, Bool.false_and, if_neg Bool.false_ne_true]

/-! ## Tracking -/

variable {usable : Value → Prop} {pairs pairs' : RecordId → RecordId → Prop} {good : α → Prop}
  {good' : γ → Prop} {run : Run α}

/-- The same outcome, which is calm, and machines that are related again. -/
def SameResult (usable : Value → Prop) (pairs : RecordId → RecordId → Prop) (m d : Machine)
    (good : α → Prop) (result result' : Except RuntimeError α × Machine) : Prop :=
  result'.1 = result.1 ∧ Calm good result.1 ∧ ∃ pairs', Related usable pairs' result.2 result'.2 ∧
    Continues pairs m d pairs' result.2 result'.2

/-- Whatever the run comes to, the runs settle on the same on the second machine. -/
def Tracks (usable : Value → Prop) (pairs : RecordId → RecordId → Prop) (m d : Machine)
    (good : α → Prop) (run : Run α) (runs : Nat → Run α) : Prop :=
  Follows m d (SameResult usable pairs m d good) run runs

theorem SameResult.of_continues (hcontinues : Continues pairs m d pairs' m' d')
    {result result' : Except RuntimeError α × Machine}
    (hsame : SameResult usable pairs' m' d' good result result') :
    SameResult usable pairs m d good result result' := by
  obtain ⟨houtcome, hcalm, pairs'', hrelated, hcontinues'⟩ := hsame
  exact ⟨houtcome, hcalm, pairs'', hrelated, hcontinues.trans hcontinues'⟩

/-- The second step follows the first from whatever the first comes to. -/
theorem Tracks.bind_follows (hrun : Tracks usable pairs m d good run runs) {nexts : Nat → α → Run δ}
    (hafter : ∀ value pairs' m' d', Related usable pairs' m' d' →
      Continues pairs m d pairs' m' d' → good value →
      Follows m' d' fits (after value) (nexts · value))
    (herror : ∀ err pairs' m' d', Related usable pairs' m' d' → Continues pairs m d pairs' m' d' →
      err.kind ≠ .internal → fits (.error err, m') (.error err, d')) :
    Follows m d fits (run >>= after) fun steps => runs steps >>= nexts steps := by
  intro result hresult
  rw [bind_on] at hresult
  -- Where the first run fails, so do the others, and what follows is not reached.
  rcases hfirst : run m with _ | ⟨err | value, middle⟩
  · simp [hfirst] at hresult
  · simp only [hfirst, Option.some.injEq] at hresult
    subst hresult
    obtain ⟨⟨outcome', d'⟩, hsettles, rfl, hcalm, pairs', hrelated, hcontinues⟩ := hrun _ hfirst
    exact ⟨_, hsettles.bind_error, herror err pairs' middle d' hrelated hcontinues hcalm⟩
  · simp only [hfirst] at hresult
    obtain ⟨⟨outcome', d'⟩, hsettles, rfl, hgood, pairs', hrelated, hcontinues⟩ := hrun _ hfirst
    obtain ⟨result', hsettles', hfits⟩ :=
      hafter value pairs' middle d' hrelated hcontinues hgood result hresult
    exact ⟨result', hsettles.bind hsettles', hfits⟩

theorem Tracks.bind (hrun : Tracks usable pairs m d good run runs) {nexts : Nat → α → Run γ}
    (hafter : ∀ value pairs' m' d', Related usable pairs' m' d' →
      Continues pairs m d pairs' m' d' → good value →
      Tracks usable pairs' m' d' good' (after value) (nexts · value)) :
    Tracks usable pairs m d good' (run >>= after) fun steps => runs steps >>= nexts steps :=
  hrun.bind_follows
    (fun value pairs' m' d' hrelated hcontinues hgood =>
      (hafter value pairs' m' d' hrelated hcontinues hgood).mono fun _ _ =>
        .of_continues hcontinues)
    fun _ pairs' _ _ hrelated hcontinues hcalm => ⟨rfl, hcalm, pairs', hrelated, hcontinues⟩

theorem tracks_ofOutcome (hmd : Related usable pairs m d) (hcalm : Calm good outcome) :
    Tracks usable pairs m d good (ofOutcome outcome) fun _ => ofOutcome outcome :=
  follows_ofOutcome ⟨rfl, hcalm, pairs, hmd, .refl pairs m d⟩

theorem tracks_pure (hmd : Related usable pairs m d) {value : α} (hvalue : good value) :
    Tracks usable pairs m d good (pure value) fun _ => pure value :=
  follows_ofOutcome ⟨rfl, hvalue, pairs, hmd, .refl pairs m d⟩

theorem tracks_throw (hmd : Related usable pairs m d) {err : RuntimeError}
    (herr : err.kind ≠ .internal) :
    Tracks usable pairs m d good (throw err) fun _ => throw err :=
  follows_ofOutcome ⟨rfl, herr, pairs, hmd, .refl pairs m d⟩

theorem tracks_lift {attempt : Attempt Machine α}
    (hattempt : Mirrors usable pairs good attempt m d) :
    Tracks usable pairs m d good (liftM attempt) fun _ => liftM attempt := by
  rintro _ ⟨rfl⟩
  exact ⟨_, .of_eq fun _ => rfl, hattempt.outcome, hattempt.calm, pairs, hattempt.related,
    hattempt.continues⟩

theorem Tracks.discard (hrun : Tracks usable pairs m d good run runs) :
    Tracks usable pairs m d (fun _ => True) (discard run : Run PUnit)
      fun steps => (discard (runs steps) : Run PUnit) := by
  intro result hresult
  rw [discard_on] at hresult
  rcases hfirst : run m with _ | ⟨_ | value, middle⟩
  · simp [hfirst] at hresult
  · simp only [hfirst, Option.some.injEq] at hresult
    subst hresult
    obtain ⟨⟨outcome', d'⟩, hsettles, rfl, hcalm, hrest⟩ := hrun _ hfirst
    exact ⟨_, hsettles.discard_error, rfl, hcalm, hrest⟩
  · simp only [hfirst, Option.some.injEq] at hresult
    subst hresult
    obtain ⟨⟨outcome', d'⟩, hsettles, rfl, -, hrest⟩ := hrun _ hfirst
    exact ⟨_, hsettles.discard, rfl, trivial, hrest⟩

theorem Tracks.outcomeOf (hrun : Tracks usable pairs m d good run runs) :
    Tracks usable pairs m d (Calm good) (outcomeOf run) fun steps => outcomeOf (runs steps) := by
  intro result hresult
  rw [outcomeOf_on] at hresult
  rcases hfirst : run m with _ | ⟨first, middle⟩
  · simp [hfirst] at hresult
  · simp only [hfirst, Option.some.injEq] at hresult
    subst hresult
    obtain ⟨⟨outcome', d'⟩, hsettles, rfl, hcalm, hrest⟩ := hrun _ hfirst
    exact ⟨_, hsettles.outcomeOf, rfl, hcalm, hrest⟩

variable {id id' : RecordId} {record record' : Record} {opened opened' : Machine}

/-- Work in a scope that was opened on both sides, and closed afterwards. -/
theorem tracks_inScope (hmd : Related usable pairs m d) (hopens : m.Opens id record opened)
    (hopens' : d.Opens id' record' opened')
    (hrun : Tracks usable (withPair pairs id id') opened opened' good run runs) :
    Follows opened opened' (SameResult usable pairs m d good)
      (do
        let outcome ← Run.outcomeOf run
        Machine.popRecord id
        ofOutcome outcome)
      (fun steps => do
        let outcome ← Run.outcomeOf (runs steps)
        Machine.popRecord id'
        ofOutcome outcome) := by
  intro result hresult
  rw [bind_on, outcomeOf_on] at hresult
  rcases hfirst : run opened with _ | ⟨first, worked⟩
  · simp [hfirst] at hresult
  · obtain ⟨⟨first', worked'⟩, hsettles, rfl, hcalm, pairs', hrelated, hcontinues⟩ := hrun _ hfirst
    -- The scope is closed on the right first, and on the left without any work in between.
    obtain ⟨closed', -, hpop', hright, hleft⟩ := hmd.scope hopens hopens' hrelated hcontinues
    obtain ⟨closed, -, hpop, hclosed, hgoes⟩ := hleft _ _ _ hright (.refl _ _ _)
    simp only [hfirst, bind_on, lift_on, hpop, ofOutcome_on, Option.some.injEq] at hresult
    subst hresult
    exact ⟨(_, closed'), hsettles.outcomeOf.bind (.lift_bind hpop' (.of_eq fun _ => rfl)), rfl,
      hcalm, _, hclosed, hgoes⟩

end ScriptCore.Run
