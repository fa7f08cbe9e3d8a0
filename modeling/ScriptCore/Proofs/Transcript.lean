/-!
# Operations one after the other

What a row of operations does to a state, and what each of them gives.  What every operation keeps
of a state is kept by whole rows of operations (`transcript_keeps`), and so is a relation between
two states if the operations give the same on both sides (`transcript_related`).

Both are by induction on the row, and in both the step is all that a data structure has to bring: a
lemma on one operation.  With a plain list or listing as the second state, `transcript_related` says
that the structure cannot be told from it.
-/

namespace ScriptCore

variable {ι ω σ τ : Type}

/-- The outcomes of operations carried out one after the other, and the state they leave. -/
def transcript (perform : ι → σ → ω × σ) : List ι → σ → List ω × σ
  | [], state => ([], state)
  | operation :: rest, state =>
    let (outcome, state) := perform operation state
    let (outcomes, state) := transcript perform rest state
    (outcome :: outcomes, state)

theorem transcript_cons (perform : ι → σ → ω × σ) (operation : ι) (rest : List ι) (state : σ) :
    transcript perform (operation :: rest) state =
      ((perform operation state).1 :: (transcript perform rest (perform operation state).2).1,
        (transcript perform rest (perform operation state).2).2) :=
  rfl

/-- What every operation keeps is kept by a row of operations. -/
theorem transcript_keeps {perform : ι → σ → ω × σ} (Kept : σ → Prop)
    (hstep : ∀ operation state, Kept state → Kept (perform operation state).2)
    (operations : List ι) {state : σ} (hstate : Kept state) :
    Kept (transcript perform operations state).2 := by
  induction operations generalizing state with
  | nil => exact hstate
  | cons operation rest ih => exact ih (hstep operation state hstate)

/-- If every operation gives the same on related states and leaves them related, then so does a row
of operations. -/
theorem transcript_related {perform : ι → σ → ω × σ} {perform' : ι → τ → ω × τ}
    {Related : σ → τ → Prop}
    (hstep : ∀ operation state state', Related state state' →
      (perform operation state).1 = (perform' operation state').1 ∧
      Related (perform operation state).2 (perform' operation state').2)
    (operations : List ι) {state : σ} {state' : τ} (hstate : Related state state') :
    (transcript perform operations state).1 = (transcript perform' operations state').1 ∧
    Related (transcript perform operations state).2 (transcript perform' operations state').2 := by
  induction operations generalizing state state' with
  | nil => exact ⟨rfl, hstate⟩
  | cons operation rest ih =>
      obtain ⟨hfirst, hnext⟩ := hstep operation state state' hstate
      obtain ⟨hrest, hlast⟩ := ih hnext
      exact ⟨by rw [transcript_cons, transcript_cons, hfirst, hrest], hlast⟩

end ScriptCore
