import ScriptCore.Proofs.Evaluation.Tracking

/-!
# Calls that are handed back

The body of a function may end with a call that is still to be made.  Where one evaluator makes that
call in the scope of the body, with the scope still open, another one hands it back, closes the
scope and makes the call afterwards.

`TracksTail` compares the two up to the point where the call is handed back: the first run goes on
from there by itself, and whatever machine is related to the one at that point, driving the call
goes on the same way (`GoesOn`).  `BodyResult` compares them after the scope was closed on both
sides.

When the second run is handed the call, the first one has made it already, so what the first one
comes to is fixed by then.  What the second one comes to is a claim about every machine that is
related to the first at that point, and so about the one it has after the scope was closed.
-/

namespace ScriptCore

open Machine Run

namespace Strategy

variable {usable : Value → Prop} {pairs : RecordId → RecordId → Prop} {m m' d : Machine}

/-! ## Runs that may defer a call -/

/-- Whatever machine is related to `m`, driving the call on it settles on the outcome, and on a
machine that is related to `m'`. -/
def GoesOn (strategy : Strategy) (usable : Value → Prop) (m : Machine) (address : Address)
    (arguments : Arguments) (last : Except RuntimeError Value) (m' : Machine) : Prop :=
  ∀ pairs d, Related usable pairs m d → ∃ pairs' d',
    Settles (strategy.drive · true address arguments) d (last, d') ∧ Related usable pairs' m' d' ∧
      Continues pairs m d pairs' m' d'

/-- A value that was computed in full: the second result is the same, or it is a call handed back
that goes on to the same outcome. -/
def TailResult (strategy : Strategy) (usable : Value → Prop) (pairs : RecordId → RecordId → Prop)
    (m d : Machine) (result result' : Except RuntimeError Completion × Machine) : Prop :=
  ∃ last, result.1 = last.map .value ∧ Calm usable last ∧
    ((result'.1 = result.1 ∧ ∃ pairs', Related usable pairs' result.2 result'.2 ∧
      Continues pairs m d pairs' result.2 result'.2) ∨
    ∃ address arguments pairs' m', result'.1 = .ok (.deferred address arguments) ∧
      Related usable pairs' m' result'.2 ∧ Continues pairs m d pairs' m' result'.2 ∧
      strategy.GoesOn usable m' address arguments last result.2)

/-- The run makes its last call in full; the runs do so too, or hand it back. -/
def TracksTail (strategy : Strategy) (usable : Value → Prop) (pairs : RecordId → RecordId → Prop)
    (m d : Machine) (run : Run Completion) (runs : Nat → Run Completion) : Prop :=
  Follows m d (strategy.TailResult usable pairs m d) run runs

variable {strategy : Strategy}

theorem TailResult.of_continues {pairs' : RecordId → RecordId → Prop} {d' : Machine}
    (hcontinues : Continues pairs m d pairs' m' d')
    {result result' : Except RuntimeError Completion × Machine}
    (htail : strategy.TailResult usable pairs' m' d' result result') :
    strategy.TailResult usable pairs m d result result' := by
  obtain ⟨last, hlast, hcalm, hcases⟩ := htail
  refine ⟨last, hlast, hcalm, hcases.imp ?_ ?_⟩
  · rintro ⟨houtcome, pairs'', hrelated, hcontinues'⟩
    exact ⟨houtcome, pairs'', hrelated, hcontinues.trans hcontinues'⟩
  · rintro ⟨address, arguments, pairs₁, m₁, houtcome, hrelated, hcontinues', hgoes⟩
    exact ⟨address, arguments, pairs₁, m₁, houtcome, hrelated, hcontinues.trans hcontinues', hgoes⟩

theorem tracksTail_bind {α : Type} {good : α → Prop} {run : Run α} {runs : Nat → Run α}
    {after : α → Run Completion} {nexts : Nat → α → Run Completion}
    (hrun : Tracks usable pairs m d good run runs)
    (hafter : ∀ value pairs' m' d', Related usable pairs' m' d' →
      Continues pairs m d pairs' m' d' → good value →
      strategy.TracksTail usable pairs' m' d' (after value) (nexts · value)) :
    strategy.TracksTail usable pairs m d (run >>= after) fun steps => runs steps >>= nexts steps :=
  hrun.bind_follows
    (fun value pairs' m' d' hrelated hcontinues hgood =>
      (hafter value pairs' m' d' hrelated hcontinues hgood).mono fun _ _ =>
        .of_continues hcontinues)
    fun err pairs' _ _ hrelated hcontinues hcalm =>
      ⟨.error err, rfl, hcalm, .inl ⟨rfl, pairs', hrelated, hcontinues⟩⟩

theorem tracksTail_value (hmd : Related usable pairs m d) {value : Value} (hvalue : usable value) :
    strategy.TracksTail usable pairs m d (pure (.value value)) fun _ => pure (.value value) :=
  follows_ofOutcome ⟨.ok value, rfl, hvalue, .inl ⟨rfl, pairs, hmd, .refl pairs m d⟩⟩

/-- A value that is computed in full. -/
theorem tracksTail_full {run : Run Value} {runs : Nat → Run Value}
    (hrun : Tracks usable pairs m d usable run runs) :
    strategy.TracksTail usable pairs m d (do return .value (← run))
      fun steps => do return .value (← runs steps) :=
  tracksTail_bind hrun fun _ _ _ _ hrelated _ hvalue => tracksTail_value hrelated hvalue

/-- The call is handed back at once. -/
theorem tracksTail_deferred (hmd : Related usable pairs m d) {run : Run Value} {address : Address}
    {arguments : Arguments} (hgoes : ∀ pairs d, Related usable pairs m d →
      Tracks usable pairs m d usable run (strategy.drive · true address arguments)) :
    strategy.TracksTail usable pairs m d (do return .value (← run))
      fun _ => pure (.deferred address arguments) := by
  intro result hresult
  rw [bind_on] at hresult
  rcases hfirst : run m with _ | ⟨first, middle⟩
  · simp [hfirst] at hresult
  · obtain ⟨_, -, -, hcalm, -⟩ := hgoes pairs d hmd _ hfirst
    -- What the first run comes to is a value or an error of the call itself.
    have hresult : result = (first.map .value, middle) := by
      cases first <;> simp only [hfirst, pure_on, Option.some.injEq] at hresult <;>
        exact hresult.symm
    subst hresult
    refine ⟨_, .of_eq fun _ => rfl, first, rfl, hcalm, .inr ⟨address, arguments, pairs, m, rfl, hmd,
      .refl pairs m d, fun pairs' d' hmd' => ?_⟩⟩
    obtain ⟨⟨outcome', d''⟩, hsettles, rfl, -, pairs'', hrelated, hcontinues⟩ :=
      hgoes pairs' d' hmd' _ hfirst
    exact ⟨pairs'', d'', hsettles, hrelated, hcontinues⟩

/-! ## Bodies -/

/-- A value that was computed in full: the second result is the same, or it is a call handed back,
and driving it settles on the same. -/
def BodyResult (strategy : Strategy) (usable : Value → Prop) (pairs : RecordId → RecordId → Prop)
    (m d : Machine) (result result' : Except RuntimeError Completion × Machine) : Prop :=
  ∃ last pairs' d', result.1 = last.map .value ∧ Calm usable last ∧
    Related usable pairs' result.2 d' ∧ Continues pairs m d pairs' result.2 d' ∧
    (result' = (result.1, d') ∨ ∃ address arguments, result'.1 = .ok (.deferred address arguments) ∧
      Settles (strategy.drive · true address arguments) result'.2 (last, d'))

theorem follows_full {run : Run Value} {runs : Nat → Run Value}
    (hrun : Tracks usable pairs m d usable run runs) :
    Follows m d (strategy.BodyResult usable pairs m d) (do return .value (← run))
      fun steps => do return .value (← runs steps) :=
  hrun.bind_follows
    (fun value pairs' _ d' hrelated hcontinues hvalue =>
      follows_ofOutcome ⟨.ok value, pairs', d', rfl, hvalue, hrelated, hcontinues, .inl rfl⟩)
    fun err pairs' _ d' hrelated hcontinues hcalm =>
      ⟨.error err, pairs', d', rfl, hcalm, hrelated, hcontinues, .inl rfl⟩

variable {id id' : RecordId} {record record' : Record} {opened opened' : Machine}

/-- Work in a scope that was opened on both sides, and closed afterwards. -/
theorem follows_inScope (hmd : Related usable pairs m d) (hopens : m.Opens id record opened)
    (hopens' : d.Opens id' record' opened') {run : Run Completion} {runs : Nat → Run Completion}
    (hrun : strategy.TracksTail usable (withPair pairs id id') opened opened' run runs) :
    Follows opened opened' (strategy.BodyResult usable pairs m d)
      (do
        let outcome ← outcomeOf run
        Machine.unwindTo m.stack.depth
        ofOutcome outcome)
      (fun steps => do
        let outcome ← outcomeOf (runs steps)
        Machine.unwindTo d.stack.depth
        ofOutcome outcome) := by
  intro result hresult
  rw [bind_on, outcomeOf_on] at hresult
  rcases hfirst : run opened with _ | ⟨first, worked⟩
  · simp [hfirst] at hresult
  simp only [hfirst, bind_on, lift_on] at hresult
  obtain ⟨⟨first', worked'⟩, hsettles, last, hlast, hcalm, hcases⟩ := hrun _ hfirst
  -- The call was made in full on both sides, or the second run handed it back.
  rcases hcases with ⟨hsame, pairs₁, hrelated, hcontinues⟩ |
    ⟨address, arguments, pairs₁, m₁, hdeferred, hrelated, hcontinues, hgoes⟩
  · obtain ⟨closed', hunwind', -, hright, hleft⟩ := hmd.scope hopens hopens' hrelated hcontinues
    obtain ⟨closed, hunwind, -, hclosed, hgoes⟩ := hleft _ _ _ hright (.refl _ _ _)
    simp only [hunwind, ofOutcome_on, Option.some.injEq] at hresult
    subst hresult
    exact ⟨(first', closed'), hsettles.outcomeOf.bind (.lift_bind hunwind' (.of_eq fun _ => rfl)),
      last, _, closed', hlast, hcalm, hclosed, hgoes, .inl (by rw [← hsame])⟩
  · obtain ⟨closed', hunwind', -, hright, hleft⟩ := hmd.scope hopens hopens' hrelated hcontinues
    -- The call is driven after the scope was closed on the right; on the left it is still open.
    obtain ⟨pairs₂, later', hdrive, hlater, hgoes'⟩ := hgoes _ closed' hright
    obtain ⟨closed, hunwind, -, hclosed, hgoes''⟩ := hleft _ _ _ hlater hgoes'
    simp only [hunwind, ofOutcome_on, Option.some.injEq] at hresult
    subst hresult
    exact ⟨(first', closed'), hsettles.outcomeOf.bind (.lift_bind hunwind' (.of_eq fun _ => rfl)),
      last, pairs₂, later', hlast, hcalm, hclosed, hgoes'',
      .inr ⟨address, arguments, hdeferred, hdrive⟩⟩

end Strategy

end ScriptCore
