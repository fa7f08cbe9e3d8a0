import ScriptCore.Proofs.Evaluation.Guarding

/-!
# Locked scopes

A scope that is locked takes no assignments, whether they are made in it or come back to it along a
link from a call or a handler.  But it takes names that are bound in it outright, by a `define` or
by the definition of a function.

Which these are is a matter of what is evaluated in the scope itself: not the bodies of functions
and the handlers, which have scopes of their own, and only as far as evaluation comes to it.
`Machine.Declares name m expr` tells it by going down the expression, part by part.  Evaluating in
a locked scope binds these names and no others (`Machine.Occurs.names_of_locked`).

The proof follows the evaluator.  A run that evaluates expressions one after the other walks through
them (`Run.Walks`): what is bound or still to be bound is the same before and after it, whatever
follows.  So walks can be put together in sequence, and the walk through one expression is put
together from those through its parts.

A conditional and the logical operators evaluate only some of their parts, and which ones depends on
a value.  Such a form has one part that is always evaluated and, in view of its value, one that is
chosen (`Expr.chosen?`); the other forms have all their parts evaluated, left to right, as far as
none fails.
-/

namespace ScriptCore

open Run

/-! ## What is evaluated in one scope -/

namespace Expr

/-- The name that an expression binds in the scope in which it is evaluated, whether or not that
scope is locked. -/
def declared? : Expr → Option String
  | define target _ => some target
  | function target _ _ _ => some target
  | _ => none

/-- The expressions that are evaluated first, in the same scope and from left to right, as long as
values come of them.  The body of a function and a handler have scopes of their own. -/
def parts : Expr → List Expr
  | literal _ | name _ => []
  | assign _ value | define _ value => [value]
  | unary _ operand => [operand]
  | binary .and left _ | binary .or left _ => [left]
  | binary _ left right => [left, right]
  | conditional condition _ _ => [condition]
  | block body => body
  | list items => items
  | dict entries => entries.flatMap fun (key, value) => [key, value]
  | function _ parameters _ _ => parameters.filterMap (·.2)
  | call callee positional named => callee :: (positional ++ named.map (·.2))
  | getAttribute object _ => [object]
  | setAttribute object _ value => [object, value]
  | callMethod receiver _ positional named => receiver :: (positional ++ named.map (·.2))
  | raise _ message => [message]
  | handle body _ _ => [body]

/-- The expression that is evaluated after the first part, if the value of that part decides. -/
def chosen? (h : Heap) (value : Value) : Expr → Option Expr
  | binary .and _ right => if h.isTruthy value then some right else none
  | binary .or _ right => if h.isTruthy value then none else some right
  | conditional _ consequence alternative =>
    if h.isTruthy value then some consequence else alternative
  | _ => none

end Expr

namespace Machine

mutual

/-- Evaluating an expression on a machine comes to bind a name in the current scope itself. -/
inductive Declares (name : String) : Machine → Expr → Prop
  | own {m m' : Machine} {expr : Expr} {value : Value} (hdeclared : expr.declared? = some name)
      (hexpr : Settles (eval · expr) m (.ok value, m')) : Declares name m expr
  | part {m : Machine} {expr : Expr} (hparts : DeclaresAmong name m expr.parts) :
      Declares name m expr
  | branch {m m' : Machine} {expr first chosen : Expr} {value : Value}
      (hparts : expr.parts = [first]) (hfirst : Settles (eval · first) m (.ok value, m'))
      (hchosen : expr.chosen? m'.heap value = some chosen) (hbranch : Declares name m' chosen) :
      Declares name m expr

/-- Evaluating expressions one after the other, as long as values come of them, comes to bind a
name in the current scope itself. -/
inductive DeclaresAmong (name : String) : Machine → List Expr → Prop
  | head {m : Machine} {expr : Expr} {rest : List Expr} (hexpr : Declares name m expr) :
      DeclaresAmong name m (expr :: rest)
  | tail {m m' : Machine} {expr : Expr} {rest : List Expr} {value : Value}
      (hexpr : Settles (eval · expr) m (.ok value, m')) (hrest : DeclaresAmong name m' rest) :
      DeclaresAmong name m (expr :: rest)

end

section Names

variable {name : String} {m m' : Machine} {expr : Expr} {rest : List Expr}

@[simp] theorem not_declaresAmong_nil : ¬ DeclaresAmong name m [] :=
  nofun

theorem declaresAmong_cons_iff {outcome : Except RuntimeError Value}
    (hexpr : Settles (eval · expr) m (outcome, m')) :
    DeclaresAmong name m (expr :: rest) ↔
      Declares name m expr ∨ outcome.isOk = true ∧ DeclaresAmong name m' rest := by
  constructor
  · rintro (hhead | ⟨hvalue, hrest⟩)
    · exact .inl hhead
    · obtain ⟨rfl, rfl⟩ := Prod.mk.inj (hexpr.unique hvalue)
      exact .inr ⟨rfl, hrest⟩
  · rintro (hhead | ⟨hok, hrest⟩)
    · exact .head hhead
    · cases outcome with
      | ok value => exact .tail hexpr hrest
      | error err => nomatch hok

theorem declaresAmong_singleton_iff : DeclaresAmong name m [expr] ↔ Declares name m expr := by
  constructor
  · rintro (hhead | ⟨-, hrest⟩)
    · exact hhead
    · nomatch hrest
  · exact .head

/-- Where the value of the first part decides nothing, a name is bound by a part or by the
expression itself. -/
theorem declares_iff_of_parts (hplain : ∀ h value, expr.chosen? h value = none)
    {outcome : Except RuntimeError Value} (hexpr : Settles (eval · expr) m (outcome, m')) :
    Declares name m expr ↔
      DeclaresAmong name m expr.parts ∨ outcome.isOk = true ∧ expr.declared? = some name := by
  constructor
  · rintro (⟨hdeclared, hvalue⟩ | hparts | ⟨-, -, hchosen, -⟩)
    · obtain ⟨rfl, rfl⟩ := Prod.mk.inj (hexpr.unique hvalue)
      exact .inr ⟨rfl, hdeclared⟩
    · exact .inl hparts
    · nomatch (hplain _ _).symm.trans hchosen
  · rintro (hparts | ⟨hok, hdeclared⟩)
    · exact .part hparts
    · cases outcome with
      | ok value => exact .own hdeclared hexpr
      | error err => nomatch hok

/-- Where the value of the first part decides, a name is bound by that part or by what is chosen. -/
theorem declares_iff_of_branch {first : Expr} (hdeclared : expr.declared? = none)
    (hparts : expr.parts = [first]) {outcome : Except RuntimeError Value}
    (hfirst : Settles (eval · first) m (outcome, m')) :
    Declares name m expr ↔ Declares name m first ∨ ∃ value, outcome = .ok value ∧
      DeclaresAmong name m' (expr.chosen? m'.heap value).toList := by
  constructor
  · rintro (⟨hown, -⟩ | hpart | ⟨hsame, hvalue, hchosen, hbranch⟩)
    · nomatch hdeclared.symm.trans hown
    · rw [hparts, declaresAmong_singleton_iff] at hpart
      exact .inl hpart
    · obtain rfl : first = _ := List.head_eq_of_cons_eq (hparts.symm.trans hsame)
      obtain ⟨rfl, rfl⟩ := Prod.mk.inj (hfirst.unique hvalue)
      refine .inr ⟨_, rfl, ?_⟩
      rw [hchosen]
      exact .head hbranch
  · rintro (hpart | ⟨value, rfl, hbranch⟩)
    · exact .part (by rwa [hparts, declaresAmong_singleton_iff])
    · cases hchosen : expr.chosen? m'.heap value with
      | none => simp [hchosen] at hbranch
      | some chosen =>
          rw [hchosen] at hbranch
          exact .branch hparts hfirst hchosen (declaresAmong_singleton_iff.1 hbranch)

end Names

end Machine

/-! ## Runs in a locked scope -/

namespace Run

open Machine

variable {config : Config} {id : RecordId} {start m : Machine} {α β : Type}

/-- A run keeps the record guarded and binds in it what evaluating the expressions binds and, if it
comes to a value, the given name. -/
def Gains (config : Config) (id : RecordId) (start : Machine) (run : Run α) (m : Machine)
    (parts : List Expr) (declared? : Option String) : Prop :=
  ∀ names, Guarded config id names start m → ∀ outcome m', run m = some (outcome, m') →
    ∃ names', Guarded config id names' start m' ∧ ∀ name, name ∈ names' ↔
      name ∈ names ∨ DeclaresAmong name m parts ∨ outcome.isOk = true ∧ declared? = some name

/-- A run keeps the record guarded and goes through the expressions, so that what is bound, or will
be if other expressions follow and are come to, is the same before and after it. -/
def Walks (config : Config) (id : RecordId) (start : Machine) (run : Run α) (m : Machine)
    (parts : List Expr) : Prop :=
  ∀ names, Guarded config id names start m → ∀ outcome m', run m = some (outcome, m') →
    ∃ names', Guarded config id names' start m' ∧ ∀ rest name,
      name ∈ names' ∨ outcome.isOk = true ∧ DeclaresAmong name m' rest ↔
        name ∈ names ∨ DeclaresAmong name m (parts ++ rest)

theorem Walks.exists_names {run : Run α} {parts : List Expr}
    (hrun : Walks config id start run m parts) {names : List String}
    (hm : Guarded config id names start m) {outcome : Except RuntimeError α} {m' : Machine}
    (hresult : run m = some (outcome, m')) :
    ∃ names', Guarded config id names' start m' ∧
      ∀ name, name ∈ names' ↔ name ∈ names ∨ DeclaresAmong name m parts := by
  obtain ⟨names', hm', hnames⟩ := hrun names hm outcome m' hresult
  refine ⟨names', hm', fun name => ?_⟩
  simpa using hnames [] name

theorem Walks.gains {run : Run α} {parts : List Expr}
    (hrun : Walks config id start run m parts) : Gains config id start run m parts none := by
  intro names hm outcome m' hresult
  obtain ⟨names', hm', hnames⟩ := hrun.exists_names hm hresult
  exact ⟨names', hm', fun name => by simp [hnames]⟩

theorem gains_get_bind {f : Machine → Run α} {parts : List Expr} {declared? : Option String}
    (hf : Gains config id start (f m) m parts declared?) :
    Gains config id start ((get : Run Machine) >>= f) m parts declared? :=
  hf

theorem gains_of_maintains {run : Run α}
    (hrun : ∀ names, Guarded config id names start m →
      run.Maintains m (Guarded config id names start)) : Gains config id start run m [] none := by
  intro names hm outcome m' hresult
  refine ⟨names, hrun names hm outcome m' hresult, fun name => ?_⟩
  simp

theorem gains_pure (value : α) : Gains config id start (pure value) m [] none :=
  gains_of_maintains fun _ hm => maintains_pure hm value

@[simp] theorem isOk_ok (value : α) : (.ok value : Except RuntimeError α).isOk = true :=
  rfl

@[simp] theorem isOk_error (err : RuntimeError) :
    (.error err : Except RuntimeError α).isOk = false :=
  rfl

theorem walks_outOfSteps (parts : List Expr) :
    Walks config id start (outOfSteps : Run α) m parts :=
  fun _ _ _ _ hrun => nomatch hrun

theorem walks_pure (value : α) : Walks config id start (pure value) m [] := by
  rintro names hm outcome m' ⟨rfl, rfl⟩
  exact ⟨names, hm, fun rest name => by simp⟩

/-- A sequence fails in its first part, which ends the walk, or goes on with the value of it. -/
theorem Walks.bind_cases {run : Run α} {f : α → Run β} {parts : List Expr}
    (hrun : Walks config id start run m parts) {names : List String}
    (hm : Guarded config id names start m) {outcome : Except RuntimeError β} {m' : Machine}
    (hresult : (run >>= f) m = some (outcome, m')) :
    (outcome.isOk = false ∧ ∃ names', Guarded config id names' start m' ∧ ∀ rest name,
      name ∈ names' ↔ name ∈ names ∨ DeclaresAmong name m (parts ++ rest)) ∨
    ∃ value middle names₁, f value middle = some (outcome, m') ∧
      Guarded config id names₁ start middle ∧ ∀ rest name,
        name ∈ names₁ ∨ DeclaresAmong name middle rest ↔
          name ∈ names ∨ DeclaresAmong name m (parts ++ rest) := by
  rw [bind_on] at hresult
  -- A first run that fails ends the whole; otherwise the second one goes on from where it stopped.
  rcases hfirst : run m with _ | ⟨err | value, middle⟩
  · simp [hfirst] at hresult
  · simp only [hfirst, Option.some.injEq, Prod.mk.injEq] at hresult
    obtain ⟨rfl, rfl⟩ := hresult
    obtain ⟨names', hm', hnames⟩ := hrun names hm _ _ hfirst
    exact .inl ⟨rfl, names', hm', fun rest name => by simpa using hnames rest name⟩
  · simp only [hfirst] at hresult
    obtain ⟨names₁, hmiddle, hnames⟩ := hrun names hm _ _ hfirst
    exact .inr ⟨value, middle, names₁, hresult, hmiddle, fun rest name => by
      simpa using hnames rest name⟩

theorem Walks.bind {run : Run α} {f : α → Run β} {parts more : List Expr}
    (hrun : Walks config id start run m parts)
    (hf : ∀ value m', Walks config id start (f value) m' more) :
    Walks config id start (run >>= f) m (parts ++ more) := by
  intro names hm outcome m' hresult
  rcases hrun.bind_cases hm hresult with
    ⟨hfail, names', hm', hnames⟩ | ⟨value, middle, names₁, hrest, hmiddle, hnames⟩
  · refine ⟨names', hm', fun rest name => ?_⟩
    rw [List.append_assoc, ← hnames]
    simp [hfail]
  · obtain ⟨names', hm', hlater⟩ := hf value middle names₁ hmiddle outcome m' hrest
    refine ⟨names', hm', fun rest name => ?_⟩
    calc name ∈ names' ∨ outcome.isOk = true ∧ DeclaresAmong name m' rest
        ↔ name ∈ names₁ ∨ DeclaresAmong name middle (more ++ rest) := hlater rest name
      _ ↔ name ∈ names ∨ DeclaresAmong name m (parts ++ (more ++ rest)) := hnames _ name
      _ ↔ name ∈ names ∨ DeclaresAmong name m (parts ++ more ++ rest) := by
        rw [List.append_assoc]

theorem Walks.then_walks {run : Run α} {f : α → Run β} {parts : List Expr}
    (hrun : Walks config id start run m parts)
    (hf : ∀ value m', Walks config id start (f value) m' []) :
    Walks config id start (run >>= f) m parts := by
  simpa using hrun.bind hf

theorem Walks.bind_gains {run : Run α} {f : α → Run β} {parts more : List Expr}
    {declared? : Option String} (hrun : Walks config id start run m parts)
    (hf : ∀ value m', Gains config id start (f value) m' more declared?) :
    Gains config id start (run >>= f) m (parts ++ more) declared? := by
  intro names hm outcome m' hresult
  rcases hrun.bind_cases hm hresult with
    ⟨hfail, names', hm', hnames⟩ | ⟨value, middle, names₁, hrest, hmiddle, hnames⟩
  · refine ⟨names', hm', fun name => ?_⟩
    rw [hnames more]
    simp [hfail]
  · obtain ⟨names', hm', hlater⟩ := hf value middle names₁ hmiddle outcome m' hrest
    refine ⟨names', hm', fun name => ?_⟩
    rw [hlater, ← or_assoc, hnames, or_assoc]

theorem Walks.then_gains {run : Run α} {f : α → Run β} {parts : List Expr}
    {declared? : Option String} (hrun : Walks config id start run m parts)
    (hf : ∀ value m', Gains config id start (f value) m' [] declared?) :
    Gains config id start (run >>= f) m parts declared? := by
  simpa using hrun.bind_gains hf

/-- A run that binds the name and comes to a value, or fails without binding it. -/
theorem gains_of_cases {run : Run α} {name : String}
    (hrun : ∀ names, Guarded config id names start m →
      (∃ err m', run m = some (.error err, m') ∧ Guarded config id names start m') ∨
      ∃ value m' names', run m = some (.ok value, m') ∧ Guarded config id names' start m' ∧
        ∀ other, other ∈ names' ↔ other ∈ names ∨ name = other) :
    Gains config id start run m [] (some name) := by
  intro names hm outcome m' hresult
  rcases hrun names hm with
    ⟨err, failed, hfail, hfailed⟩ | ⟨value, bound, names', hok, hbound, hnames⟩
  · obtain ⟨rfl, rfl⟩ := Prod.mk.inj (Option.some.inj (hresult.symm.trans hfail))
    exact ⟨names, hfailed, fun other => by simp⟩
  · obtain ⟨rfl, rfl⟩ := Prod.mk.inj (Option.some.inj (hresult.symm.trans hok))
    exact ⟨names', hbound, fun other => by
      simp [hnames]⟩

/-- What a run comes to is handled without binding anything. -/
theorem Gains.outcomeOf_bind {run : Run α} {parts : List Expr}
    (hrun : Walks config id start run m parts) {f : Except RuntimeError α → Run β}
    (hf : ∀ outcome m', Gains config id start (f outcome) m' [] none) :
    Gains config id start (outcomeOf run >>= f) m parts none := by
  intro names hm outcome m' hresult
  rw [bind_on, outcomeOf_on] at hresult
  rcases hfirst : run m with _ | ⟨first, middle⟩
  · simp [hfirst] at hresult
  · simp only [hfirst] at hresult
    obtain ⟨names₁, hmiddle, hnames⟩ := hrun.exists_names hm hfirst
    obtain ⟨names', hm', hlater⟩ := hf first middle names₁ hmiddle outcome m' hresult
    exact ⟨names', hm', fun name => by simp [hlater, hnames]⟩

end Run

/-! ## Evaluation in a locked scope -/

namespace Strategy

open Machine

variable {config : Config} {id : RecordId} {start m : Machine} {steps : Nat}

/-- Within a number of steps, evaluating expressions goes through them. -/
structure WalksWithin (config : Config) (id : RecordId) (start : Machine) (steps : Nat) : Prop where
  eval : ∀ m expr, Walks config id start (deferring.eval steps expr) m [expr]
  evalBlock : ∀ m last body, Walks config id start (deferring.evalBlock steps last body) m body
  evalList : ∀ m exprs, Walks config id start (deferring.evalList steps exprs) m exprs
  evalPairs : ∀ m pairs, Walks config id start (deferring.evalPairs steps pairs) m
    (pairs.flatMap fun (key, value) => [key, value])
  evalNamed : ∀ m named, Walks config id start (deferring.evalNamed steps named) m
    (named.map (·.2))
  evalArguments : ∀ m positional named,
    Walks config id start (deferring.evalArguments steps positional named) m
      (positional ++ named.map (·.2))
  evalParameters : ∀ m declared parameters,
    Walks config id start (deferring.evalParameters steps declared parameters) m
      (parameters.filterMap (·.2))

theorem walksWithin_zero : WalksWithin config id start 0 where
  eval _ _ := walks_outOfSteps _
  evalBlock _ _ _ := walks_outOfSteps _
  evalList _ _ := walks_outOfSteps _
  evalPairs _ _ := walks_outOfSteps _
  evalNamed _ _ := walks_outOfSteps _
  evalArguments _ _ _ := walks_outOfSteps _
  evalParameters _ _ _ := walks_outOfSteps _

/-! ### Sequences of expressions -/

theorem WalksWithin.evalBlock_succ (ih : WalksWithin config id start steps) (last : Value)
    (body : List Expr) :
    Walks config id start (deferring.evalBlock (steps + 1) last body) m body := by
  cases body with
  | nil =>
      rw [Strategy.evalBlock]
      exact walks_pure last
  | cons expr rest =>
      rw [Strategy.evalBlock]
      exact (ih.eval m expr).bind fun value m => ih.evalBlock m value rest

theorem WalksWithin.evalList_succ (ih : WalksWithin config id start steps) (exprs : List Expr) :
    Walks config id start (deferring.evalList (steps + 1) exprs) m exprs := by
  cases exprs with
  | nil =>
      rw [Strategy.evalList]
      exact walks_pure []
  | cons expr rest =>
      rw [Strategy.evalList]
      refine (ih.eval m expr).bind fun value m => ?_
      exact (ih.evalList m rest).then_walks fun values m => walks_pure _

theorem WalksWithin.evalPairs_succ (ih : WalksWithin config id start steps)
    (pairs : List (Expr × Expr)) : Walks config id start (deferring.evalPairs (steps + 1) pairs) m
      (pairs.flatMap fun (key, value) => [key, value]) := by
  match pairs with
  | [] =>
      rw [Strategy.evalPairs]
      exact walks_pure []
  | (key, value) :: rest =>
      rw [Strategy.evalPairs]
      refine (ih.eval m key).bind fun key m => (ih.eval m value).bind fun value m => ?_
      exact (ih.evalPairs m rest).then_walks fun entries m => walks_pure _

theorem WalksWithin.evalNamed_succ (ih : WalksWithin config id start steps)
    (named : List (String × Expr)) :
    Walks config id start (deferring.evalNamed (steps + 1) named) m (named.map (·.2)) := by
  match named with
  | [] =>
      rw [Strategy.evalNamed]
      exact walks_pure []
  | (name, expr) :: rest =>
      rw [Strategy.evalNamed]
      refine (ih.eval m expr).bind fun value m => ?_
      exact (ih.evalNamed m rest).then_walks fun entries m => walks_pure _

theorem WalksWithin.evalArguments_succ (ih : WalksWithin config id start steps)
    (positional : List Expr) (named : List (String × Expr)) :
    Walks config id start (deferring.evalArguments (steps + 1) positional named) m
      (positional ++ named.map (·.2)) := by
  rw [Strategy.evalArguments]
  refine (ih.evalList m positional).bind fun values m => ?_
  exact (ih.evalNamed m named).then_walks fun entries m => walks_pure _

theorem WalksWithin.evalParameters_succ (ih : WalksWithin config id start steps)
    (declared : Parameters) (parameters : List (String × Option Expr)) :
    Walks config id start (deferring.evalParameters (steps + 1) declared parameters) m
      (parameters.filterMap (·.2)) := by
  match parameters with
  | [] =>
      rw [Strategy.evalParameters]
      exact walks_pure declared
  | (name, none) :: rest =>
      rw [Strategy.evalParameters]
      exact ih.evalParameters m _ rest
  | (name, some default) :: rest =>
      rw [Strategy.evalParameters]
      exact (ih.eval m default).bind fun value m => ih.evalParameters m _ rest

/-! ### What binds nothing -/

theorem respectsCalls_guarded (config : Config) (id : RecordId) (names : List String)
    (steps : Nat) :
    deferring.RespectsCalls HostRoutine.KeepsLocks (Guarded config id names) steps :=
  respectsCalls (frames_guarded config _ id names) (conserves_guardedBelow config id names)
    (fun hkeeps => hkeeps.onTop config _ id names) deferring steps

theorem gains_call (callee : Value) (arguments : Arguments) :
    Gains config id start (deferring.call steps callee arguments) m [] none :=
  gains_of_maintains fun names hm =>
    (respectsCalls_guarded config id names steps).call callee arguments hm

theorem gains_onHeap {α : Type} {attempt : Attempt Heap α}
    (hattempt : attempt.Maintains (Heap.Permits HostRoutine.KeepsLocks)) :
    Gains config id start (liftM (Machine.onHeap attempt) : Run α) m [] none :=
  gains_of_maintains fun names hm => (frames_guarded config _ id names).onHeap hm hattempt

theorem gains_readAttribute (value : Value) (name : String) :
    Gains config id start (deferring.readAttribute value name) m [] none :=
  gains_of_maintains fun names hm =>
    maintains_readAttribute (frames_guarded config _ id names) hm value name

/-! ### Expressions -/

/-- Walking through one expression is binding the names that it declares. -/
theorem walks_singleton {expr : Expr}
    (hexpr : ∀ names, Guarded config id names start m → ∀ outcome m',
      deferring.eval steps expr m = some (outcome, m') →
      ∃ names', Guarded config id names' start m' ∧
        ∀ name, name ∈ names' ↔ name ∈ names ∨ Declares name m expr) :
    Walks config id start (deferring.eval steps expr) m [expr] := by
  intro names hm outcome m' hresult
  obtain ⟨names', hm', hnames⟩ := hexpr names hm outcome m' hresult
  have hsettles : Settles (ScriptCore.eval · expr) m (outcome, m') := eval_settles hresult
  refine ⟨names', hm', fun rest name => ?_⟩
  rw [List.singleton_append, declaresAmong_cons_iff hsettles, hnames, or_assoc]

/-- An expression in which the value of the first part decides nothing. -/
theorem walks_eval {expr : Expr} (hplain : ∀ h value, expr.chosen? h value = none)
    (hgains : Gains config id start (deferring.eval steps expr) m expr.parts expr.declared?) :
    Walks config id start (deferring.eval steps expr) m [expr] := by
  refine walks_singleton fun names hm outcome m' hresult => ?_
  obtain ⟨names', hm', hnames⟩ := hgains names hm outcome m' hresult
  refine ⟨names', hm', fun name => ?_⟩
  rw [hnames, declares_iff_of_parts hplain (eval_settles hresult)]

/-- An expression that goes on with what the value of its first part chooses. -/
theorem walks_eval_of_branch {expr first : Expr} (hdeclared : expr.declared? = none)
    (hparts : expr.parts = [first]) {f : Value → Run Value}
    (heval : deferring.eval (steps + 1) expr = deferring.eval steps first >>= f)
    (hfirst : Walks config id start (deferring.eval steps first) m [first])
    (hf : ∀ value m',
      Gains config id start (f value) m' (expr.chosen? m'.heap value).toList none) :
    Walks config id start (deferring.eval (steps + 1) expr) m [expr] := by
  refine walks_singleton fun names hm outcome m' hresult => ?_
  rw [heval, bind_on] at hresult
  rcases hvalue : deferring.eval steps first m with _ | ⟨valued, middle⟩
  · simp [hvalue] at hresult
  obtain ⟨names₁, hmiddle, hnames⟩ := hfirst.exists_names hm hvalue
  simp only [declaresAmong_singleton_iff] at hnames
  have hsettles : Settles (ScriptCore.eval · first) m (valued, middle) := eval_settles hvalue
  -- The chosen part is evaluated only if the first one has a value to choose by.
  cases valued with
  | error err =>
      simp only [hvalue, Option.some.injEq, Prod.mk.injEq] at hresult
      obtain ⟨rfl, rfl⟩ := hresult
      refine ⟨names₁, hmiddle, fun name => ?_⟩
      rw [hnames, declares_iff_of_branch hdeclared hparts hsettles]
      simp
  | ok value =>
      simp only [hvalue] at hresult
      obtain ⟨names', hm', hlater⟩ := hf value middle names₁ hmiddle outcome m' hresult
      refine ⟨names', hm', fun name => ?_⟩
      rw [hlater, hnames, declares_iff_of_branch hdeclared hparts hsettles]
      simp [or_assoc]

theorem WalksWithin.handle_succ (ih : WalksWithin config id start steps) (body : Expr)
    (binding : String) (handler : Expr) :
    Gains config id start (deferring.eval (steps + 1) (.handle body binding handler)) m [body]
      none := by
  intro names hm
  have hdepth : m.stack = start.stack := hm.stack_eq
  rw [Strategy.eval]
  refine Gains.outcomeOf_bind (ih.eval m body) (fun outcome m' => ?_) names hm
  refine gains_of_maintains fun names hm => ?_
  cases outcome with
  | ok value => exact maintains_pure hm value
  | error err =>
      dsimp only
      split
      · exact maintains_throw hm err
      · -- The same scopes are open as before the body, so there is nothing to close.
        refine maintains_lift_bind_ok (unwindTo_of_depth_le ?_) ?_
        · rw [hm.stack_eq, hdepth]
          exact Nat.le_max_left _ _
        · have hinner := conserves_guardedBelow config id names
          exact maintains_handler (frames_guarded config _ id names) hm fun hopened =>
            (maintains_lift (hinner.define binding (.ofError err) hopened)).bind fun _ m hm =>
              (respects hinner deferring steps).eval handler hm

theorem WalksWithin.binary_succ (ih : WalksWithin config id start steps)
    (operator : BinaryOperator) (left right : Expr) :
    Walks config id start (deferring.eval (steps + 1) (.binary operator left right)) m
      [.binary operator left right] := by
  have htruth : ∀ m, Gains config id start (do
      let right ← deferring.eval steps right
      return .boolean ((← get).heap.isTruthy right) : Run Value) m [right] none :=
    fun m => (ih.eval m right).then_gains fun right m => gains_pure _
  -- The logical operators choose whether to evaluate their right operand; the others evaluate both.
  by_cases hand : operator = .and
  · subst operator
    refine walks_eval_of_branch rfl rfl (by rw [Strategy.eval]) (ih.eval m left)
      fun value m' => gains_get_bind ?_
    rw [Expr.chosen?]
    split
    · exact htruth m'
    · exact gains_pure _
  by_cases hor : operator = .or
  · subst operator
    refine walks_eval_of_branch rfl rfl (by rw [Strategy.eval]) (ih.eval m left)
      fun value m' => gains_get_bind ?_
    rw [Expr.chosen?]
    split
    · exact gains_pure _
    · exact htruth m'
  have hplain : ∀ h value, (Expr.binary operator left right).chosen? h value = none := by
    intro h value
    rw [Expr.chosen?] <;> simp [hand, hor]
  have hparts : (Expr.binary operator left right).parts = [left] ++ [right] := by
    rw [Expr.parts] <;> simp [hand, hor]
  refine walks_eval hplain ?_
  rw [Strategy.eval, hparts]
  · refine (ih.eval m left).bind_gains fun left m => (ih.eval m right).then_gains fun right m => ?_
    exact gains_onHeap (Heap.maintains_applyBinary operator left right)
  · exact hand
  · exact hor

section Forms

variable (ih : WalksWithin config id start steps)

include ih

theorem WalksWithin.assign_succ (name : String) (value : Expr) :
    Walks config id start (deferring.eval (steps + 1) (.assign name value)) m
      [.assign name value] := by
  refine walks_eval (fun _ _ => rfl) ?_
  rw [Strategy.eval]
  refine (ih.eval m value).then_gains fun value m => gains_of_maintains fun _ hm => ?_
  exact (maintains_lift (hm.assign name value)).bind fun _ m hm => maintains_pure hm value

theorem WalksWithin.define_succ (htop : start.stack.top? = some id) (name : String) (value : Expr) :
    Walks config id start (deferring.eval (steps + 1) (.define name value)) m
      [.define name value] := by
  refine walks_eval (fun _ _ => rfl) ?_
  rw [Strategy.eval]
  refine (ih.eval m value).then_gains fun value m => gains_of_cases fun names hm => ?_
  obtain ⟨m', names', hdefine, hm', hnames⟩ := hm.define htop name value
  exact .inr ⟨value, m', names', by rw [bind_on, lift_on, hdefine]; rfl, hm', hnames⟩

theorem WalksWithin.unary_succ (operator : UnaryOperator) (operand : Expr) :
    Walks config id start (deferring.eval (steps + 1) (.unary operator operand)) m
      [.unary operator operand] := by
  refine walks_eval (fun _ _ => rfl) ?_
  rw [Strategy.eval]
  refine (ih.eval m operand).then_gains fun value m => gains_of_maintains fun _ hm => ?_
  exact maintains_get_bind (maintains_ofOutcome hm _)

theorem WalksWithin.conditional_succ (condition consequence : Expr) (alternative : Option Expr) :
    Walks config id start
      (deferring.eval (steps + 1) (.conditional condition consequence alternative)) m
      [.conditional condition consequence alternative] := by
  refine walks_eval_of_branch rfl rfl (by rw [Strategy.eval]) (ih.eval m condition)
    fun value m' => gains_get_bind ?_
  rw [Expr.chosen?]
  split
  · exact (ih.eval m' consequence).gains
  · cases alternative with
    | some other => exact (ih.eval m' other).gains
    | none => exact gains_pure _

theorem WalksWithin.list_succ (items : List Expr) :
    Walks config id start (deferring.eval (steps + 1) (.list items)) m
      [.list items] := by
  refine walks_eval (fun _ _ => rfl) ?_
  rw [Strategy.eval]
  exact (ih.evalList m items).then_gains fun values m =>
    gains_onHeap (Heap.maintains_makeList values)

theorem WalksWithin.dict_succ (entries : List (Expr × Expr)) :
    Walks config id start (deferring.eval (steps + 1) (.dict entries)) m
      [.dict entries] := by
  refine walks_eval (fun _ _ => rfl) ?_
  rw [Strategy.eval]
  exact (ih.evalPairs m entries).then_gains fun values m =>
    gains_onHeap (Heap.maintains_dictOf values)

theorem WalksWithin.function_succ (htop : start.stack.top? = some id) (name : String)
    (parameters : List (String × Option Expr)) (body : Expr) (doc : Option String) :
    Walks config id start (deferring.eval (steps + 1) (.function name parameters body doc)) m
      [.function name parameters body doc] := by
  refine walks_eval (fun _ _ => rfl) ?_
  rw [Strategy.eval]
  refine (ih.evalParameters m .empty parameters).then_gains fun declared m =>
    gains_of_cases fun names hm => ?_
  -- Defining a function binds its name even though the scope is locked.
  rcases hm.defineFunction htop name declared body with
    ⟨err, failed, hfail, hfailed⟩ | ⟨address, m', names', hdefine, hm', hnames⟩
  · exact .inl ⟨err, failed, by rw [bind_on, lift_on, hfail], hfailed⟩
  cases doc with
  | none =>
      exact .inr ⟨.function address, m', names', by rw [bind_on, lift_on, hdefine]; rfl, hm',
        hnames⟩
  | some text =>
      have hpermits : (m'.heap.setFunction address
          { m'.heap.function address with doc := some text }).Permits
          HostRoutine.KeepsLocks := hm'.permits.setFunction address rfl
      refine .inr ⟨.function address, _, names', by rw [bind_on, lift_on, hdefine]; rfl,
        (frames_guarded config _ id names').heap hm' hpermits, hnames⟩

theorem WalksWithin.callExpr_succ (callee : Expr) (positional : List Expr)
    (named : List (String × Expr)) :
    Walks config id start (deferring.eval (steps + 1) (.call callee positional named)) m
      [.call callee positional named] := by
  refine walks_eval (fun _ _ => rfl) ?_
  rw [Strategy.eval]
  refine (ih.eval m callee).bind_gains fun callee m => ?_
  exact (ih.evalArguments m positional named).then_gains fun arguments m =>
    gains_call callee arguments

theorem WalksWithin.getAttribute_succ (object : Expr) (name : String) :
    Walks config id start (deferring.eval (steps + 1) (.getAttribute object name)) m
      [.getAttribute object name] := by
  refine walks_eval (fun _ _ => rfl) ?_
  rw [Strategy.eval]
  exact (ih.eval m object).then_gains fun object m => gains_readAttribute object name

theorem WalksWithin.setAttribute_succ (object : Expr) (name : String) (value : Expr) :
    Walks config id start (deferring.eval (steps + 1) (.setAttribute object name value)) m
      [.setAttribute object name value] := by
  refine walks_eval (fun _ _ => rfl) ?_
  rw [Strategy.eval]
  refine (ih.eval m object).bind_gains fun object m => ?_
  refine (ih.eval m value).then_gains fun value m => gains_of_maintains fun names hm => ?_
  exact ((frames_guarded config _ id names).onHeap hm
    (Heap.maintains_setAttribute object name value)).bind fun _ m hm => maintains_pure hm value

theorem WalksWithin.callMethod_succ (receiver : Expr) (name : String) (positional : List Expr)
    (named : List (String × Expr)) :
    Walks config id start
      (deferring.eval (steps + 1) (.callMethod receiver name positional named)) m
      [.callMethod receiver name positional named] := by
  refine walks_eval (fun _ _ => rfl) ?_
  rw [Strategy.eval]
  refine (ih.eval m receiver).bind_gains fun receiver m => ?_
  refine (ih.evalArguments m positional named).then_gains fun arguments m =>
    gains_of_maintains fun names hm => ?_
  exact (maintains_readAttribute (frames_guarded config _ id names) hm receiver name).bind
    fun method m hm => (respectsCalls_guarded config id names steps).call method arguments hm

theorem WalksWithin.raise_succ (label : String) (message : Expr) :
    Walks config id start (deferring.eval (steps + 1) (.raise label message)) m
      [.raise label message] := by
  refine walks_eval (fun _ _ => rfl) ?_
  rw [Strategy.eval]
  refine (ih.eval m message).then_gains fun message m => gains_of_maintains fun _ hm => ?_
  exact maintains_watch_bind (maintains_get_bind (maintains_throw hm _))

end Forms

theorem WalksWithin.eval_succ (ih : WalksWithin config id start steps)
    (htop : start.stack.top? = some id) (expr : Expr) :
    Walks config id start (deferring.eval (steps + 1) expr) m [expr] := by
  cases expr with
  | literal value =>
      refine walks_eval (fun _ _ => rfl) ?_
      rw [Strategy.eval]
      exact gains_pure value
  | name name =>
      refine walks_eval (fun _ _ => rfl) ?_
      rw [Strategy.eval]
      exact gains_of_maintains fun _ hm => maintains_get_bind (maintains_ofOutcome hm _)
  | assign name value => exact ih.assign_succ name value
  | define name value => exact ih.define_succ htop name value
  | unary operator operand => exact ih.unary_succ operator operand
  | binary operator left right => exact ih.binary_succ operator left right
  | conditional condition consequence alternative =>
      exact ih.conditional_succ condition consequence alternative
  | block body =>
      refine walks_eval (fun _ _ => rfl) ?_
      rw [Strategy.eval]
      exact (ih.evalBlock m .null body).gains
  | list items => exact ih.list_succ items
  | dict entries => exact ih.dict_succ entries
  | function name parameters body doc => exact ih.function_succ htop name parameters body doc
  | call callee positional named => exact ih.callExpr_succ callee positional named
  | getAttribute object name => exact ih.getAttribute_succ object name
  | setAttribute object name value => exact ih.setAttribute_succ object name value
  | callMethod receiver name positional named =>
      exact ih.callMethod_succ receiver name positional named
  | raise label message => exact ih.raise_succ label message
  | handle body binding handler =>
      exact walks_eval (fun _ _ => rfl) (ih.handle_succ body binding handler)

theorem walksWithin (config : Config) (htop : start.stack.top? = some id) (steps : Nat) :
    WalksWithin config id start steps := by
  induction steps with
  | zero => exact walksWithin_zero
  | succ steps ih =>
      exact {
        eval := fun m expr => ih.eval_succ htop expr
        evalBlock := fun m last body => ih.evalBlock_succ last body
        evalList := fun m exprs => ih.evalList_succ exprs
        evalPairs := fun m pairs => ih.evalPairs_succ pairs
        evalNamed := fun m named => ih.evalNamed_succ named
        evalArguments := fun m positional named => ih.evalArguments_succ positional named
        evalParameters := fun m declared parameters => ih.evalParameters_succ declared parameters }

end Strategy

/-! ## The main statement -/

namespace Machine

/-- **What a locked scope gains**, wherever a machine can be, unless a routine of the host opens or
closes scopes on its own account.  Whatever is evaluated in the scope and whatever comes of it, the
scope is still open and locked afterwards.  Assignments, calls and handlers bind no name in it, on
whatever way they come to it.  The names that it has more than before are those that a `define` or a
definition of a function has bound that was evaluated in the scope itself, so it has none more
exactly if each of those was there before. -/
theorem Occurs.names_of_locked {config : Config} {m m' : Machine} (hm : m.Occurs config)
    (hheap : m.heap.Permits HostRoutine.KeepsLocks) {record : Record}
    (hrecord : m.arena.record? m.currentRecord = some record) (hlocked : record.locked = true)
    {expr : Expr} {outcome : Except RuntimeError Value}
    (hsettles : Settles (eval · expr) m (outcome, m')) :
    m'.stack = m.stack ∧ ∃ later, m'.arena.record? m.currentRecord = some later ∧
      later.locked = true ∧
      (∀ name, name ∈ later.members.names ↔
        name ∈ record.members.names ∨ Declares name m expr) ∧
      ((∀ name, name ∈ later.members.names ↔ name ∈ record.members.names) ↔
        ∀ name, Declares name m expr → name ∈ record.members.names) := by
  have htop := hm.upright.top?_eq
  have hguarded : Guarded config m.currentRecord record.members.names m m :=
    ⟨hm, hheap, rfl, Array.mem_toList_iff.2 (Array.mem_of_back? htop),
      record, hrecord, hlocked, rfl⟩
  -- What the expression settles on it comes to within some steps, and walks there.
  obtain ⟨bound, hbound⟩ := hsettles
  have hwalks := (Strategy.walksWithin config htop bound).eval m expr
  obtain ⟨names', hm', hnames⟩ := hwalks.exists_names hguarded (hbound bound (Nat.le_refl bound))
  simp only [declaresAmong_singleton_iff] at hnames
  obtain ⟨later, hlater, hstill, rfl⟩ := hm'.record
  refine ⟨hm'.stack_eq, later, hlater, hstill, hnames, fun hsame name hdeclares => ?_,
    fun hkept name => ?_⟩
  · exact (hsame name).1 ((hnames name).2 (.inr hdeclares))
  · exact (hnames name).trans ⟨fun hbound => hbound.elim id (hkept name), .inl⟩

/-! ### A lock that is evaded, and one that holds -/

/-- The scope of the program was locked. -/
def locking (m : Machine) : Machine :=
  { m with arena := (m.arena.update m.program fun record => { record with locked := true }).2 }

/-- The names bound in a record that is live and locked. -/
def lockedNames? (m : Machine) (id : RecordId) : Option (List String) :=
  ((m.arena.record? id).filter (·.locked)).map (·.members.names)

theorem exists_of_lockedNames? {m : Machine} {id : RecordId} {names : List String}
    (hnames : m.lockedNames? id = some names) :
    ∃ record, m.arena.record? id = some record ∧ record.locked = true ∧
      record.members.names = names := by
  obtain ⟨record, hrecord, hsame⟩ := Option.map_eq_some_iff.1 hnames
  obtain ⟨hrecord, hlocked⟩ := Option.filter_eq_some_iff.1 hrecord
  exact ⟨record, hrecord, hlocked, hsame⟩

/-- Binds a name that is assigned to in a function. -/
def exposing : Expr :=
  .block [.define "x" (.int 1), .functionOf "f" [] (.assign "x" (.int 2))]

/-- Assigns to a new name, rebinds an old one and fails; the error is handled, and what would bind
another name is not evaluated. -/
def probing : Expr :=
  .block [.assign "y" (.int 5),
    .handle (.block [.define "x" (.callName "f" []), .raise "stop" (.literal (.string "x"))]) "err"
      (.define "z" (.name "err")),
    .binary .and (.literal (.boolean false)) (.define "w" (.int 1))]

theorem permits_start (config : Config) :
    (start config).heap.Permits fun routine => routine.IsNeutral ∧ routine.KeepsLocks :=
  Heap.permits_empty ⟨HostRoutine.isNeutral_count, HostRoutine.keepsLocks_count⟩

/-- The scope of the program keeps its names while it is locked. -/
theorem names_of_locked_probing : ∃ m record outcome m' later, m.Occurs ⟨10⟩ ∧
    m.heap.Permits HostRoutine.KeepsLocks ∧ m.arena.record? m.currentRecord = some record ∧
    record.locked = true ∧ record.members.names = ["x", "f"] ∧
    Settles (eval · probing) m (outcome, m') ∧
    m'.arena.record? m.currentRecord = some later ∧ later.members.names = ["f", "x"] ∧
    ∀ name, Declares name m probing → name ∈ record.members.names := by
  have hrun : ((eval 10 exposing (start ⟨10⟩)).bind fun made =>
      (eval 20 probing made.2.locking).bind fun result =>
        (made.2.locking.lockedNames? made.2.locking.currentRecord).bind fun before =>
          (result.2.lockedNames? made.2.locking.currentRecord).map fun after => (before, after)) =
      some (["x", "f"], ["f", "x"]) := by decide +kernel
  obtain ⟨⟨value, made⟩, hmade, hrun⟩ := Option.bind_eq_some_iff.1 hrun
  obtain ⟨⟨outcome, m'⟩, heval, hrun⟩ := Option.bind_eq_some_iff.1 hrun
  obtain ⟨before, hbefore, hrun⟩ := Option.bind_eq_some_iff.1 hrun
  obtain ⟨after, hafter, hsame⟩ := Option.map_eq_some_iff.1 hrun
  obtain ⟨rfl, rfl⟩ := Prod.mk.inj hsame
  obtain ⟨record, hrecord, hlocked, hnames⟩ := exists_of_lockedNames? hbefore
  obtain ⟨later, hlater, -, hnow⟩ := exists_of_lockedNames? hafter
  have hoccurs : made.locking.Occurs ⟨10⟩ :=
    (Occurs.start.of_settles (Strategy.eval_settles hmade)).lock made.program true
  have hheap : made.heap.Permits HostRoutine.KeepsLocks := by
    have hrel : Conserves (fun routine => routine.IsNeutral ∧ routine.KeepsLocks)
        (Tended ⟨10⟩ _) := conserves_tended ⟨10⟩ And.left
    have hmaintains := (Strategy.respects hrel .deferring 10).eval exposing
      (Attainable.start.tended (permits_start ⟨10⟩))
    exact (hmaintains _ _ hmade).permits.mono fun _ => And.right
  have hsettles : Settles (eval · probing) made.locking (outcome, m') :=
    Strategy.eval_settles heval
  obtain ⟨-, later', hlater', -, -, hkept⟩ :=
    hoccurs.names_of_locked hheap hrecord hlocked hsettles
  obtain rfl : later = later' := Option.some.inj (hlater.symm.trans hlater')
  refine ⟨made.locking, record, outcome, m', later, hoccurs, hheap, hrecord, hlocked, hnames,
    hsettles, hlater, hnow, hkept.1 fun name => ?_⟩
  rw [hnames, hnow]
  simp [or_comm]

/-- A name is bound in the scope of the program though it is locked. -/
theorem locked_gains_name : ∃ record outcome m' later,
    (start ⟨10⟩).locking.Occurs ⟨10⟩ ∧
    (start ⟨10⟩).locking.heap.Permits HostRoutine.KeepsLocks ∧
    (start ⟨10⟩).locking.arena.record? (start ⟨10⟩).locking.currentRecord = some record ∧
    record.locked = true ∧ record.members.names = [] ∧
    Settles (eval · (.define "x" (.int 1))) (start ⟨10⟩).locking (outcome, m') ∧
    m'.arena.record? (start ⟨10⟩).locking.currentRecord = some later ∧
    later.locked = true ∧ later.members.names = ["x"] := by
  have hbefore : (start ⟨10⟩).locking.lockedNames? (start ⟨10⟩).locking.currentRecord =
      some [] := by decide +kernel
  have hrun : ((eval 2 (.define "x" (.int 1)) (start ⟨10⟩).locking).bind fun result =>
      result.2.lockedNames? (start ⟨10⟩).locking.currentRecord) = some ["x"] := by decide +kernel
  obtain ⟨record, hrecord, hlocked, hnames⟩ := exists_of_lockedNames? hbefore
  obtain ⟨⟨outcome, m'⟩, heval, hafter⟩ := Option.bind_eq_some_iff.1 hrun
  obtain ⟨later, hlater, hstill, hnow⟩ := exists_of_lockedNames? hafter
  exact ⟨record, outcome, m', later, Occurs.start.lock _ true,
    (permits_start ⟨10⟩).mono fun _ => And.right, hrecord,
    hlocked, hnames, Strategy.eval_settles heval, hlater, hstill, hnow⟩

end Machine

end ScriptCore
