import ScriptCore.Proofs.Evaluation.Deferral
import ScriptCore.Proofs.Evaluation.Soundness

/-!
# The trampoline

An evaluator that hands calls in tail position back and makes them after the scope of the caller was
closed comes to the same as the one that makes every call in full.

The proof compares the two function by function, by induction on the number of steps of the one that
makes every call in full.  `Strategy.Mimics` collects what is claimed of them.  Where a call is
handed back, the first evaluator goes on in a scope more than the second; the two are brought
together again when that scope is closed at last (`Strategy.follows_inScope`).

The two machines drift apart in two respects.  The evaluator that makes every call in full has
scopes open that the other one has closed, so it may run out of room first.  And the trampoline
marks functions that it has run more than once, so reading the mark or showing a function could tell
the two apart.  At such points the first evaluator is watched: its run has no outcome there
(`Strategy.watch`).  Everything else is the same on related machines (`Machine.Related`).

The forms of expressions are gone through in the section *Forms*, one lemma for each; `eval_succ`
and `evalTail_succ` only put them together.
-/

namespace ScriptCore

open Machine Run

namespace Strategy

variable {usable : Value → Prop} {pairs : RecordId → RecordId → Prop} {m m' d : Machine}

/-- What the evaluator that makes every call in full comes to within a number of steps, the
evaluator with a strategy settles on. -/
structure Mimics (strategy : Strategy) (usable : Value → Prop) (steps : Nat) : Prop where
  eval : ∀ {pairs m d expr}, Related usable pairs m d → AtTop pairs m d → expr.Fit usable →
    Tracks usable pairs m d usable (nesting.eval steps expr) (strategy.eval · expr)
  evalTail : ∀ {pairs m d expr}, Related usable pairs m d → AtTop pairs m d → expr.Fit usable →
    strategy.TracksTail usable pairs m d (nesting.evalTail steps expr) (strategy.evalTail · expr)
  evalBlock : ∀ {pairs m d last body}, Related usable pairs m d → AtTop pairs m d → usable last →
    (∀ expr ∈ body, expr.Fit usable) →
    Tracks usable pairs m d usable (nesting.evalBlock steps last body)
      (strategy.evalBlock · last body)
  evalTailBlock : ∀ {pairs m d body}, Related usable pairs m d → AtTop pairs m d →
    (∀ expr ∈ body, expr.Fit usable) →
    strategy.TracksTail usable pairs m d (nesting.evalTailBlock steps body)
      (strategy.evalTailBlock · body)
  evalList : ∀ {pairs m d exprs}, Related usable pairs m d → AtTop pairs m d →
    (∀ expr ∈ exprs, expr.Fit usable) →
    Tracks usable pairs m d (fun values => ∀ value ∈ values, usable value)
      (nesting.evalList steps exprs) (strategy.evalList · exprs)
  evalPairs : ∀ {pairs m d entries}, Related usable pairs m d → AtTop pairs m d →
    (∀ entry ∈ entries, entry.1.Fit usable ∧ entry.2.Fit usable) →
    Tracks usable pairs m d (fun values => ∀ entry ∈ values, usable entry.1 ∧ usable entry.2)
      (nesting.evalPairs steps entries) (strategy.evalPairs · entries)
  evalNamed : ∀ {pairs m d named}, Related usable pairs m d → AtTop pairs m d →
    (∀ entry ∈ named, entry.2.Fit usable) →
    Tracks usable pairs m d (fun entries => ∀ entry ∈ entries, usable entry.2)
      (nesting.evalNamed steps named) (strategy.evalNamed · named)
  evalArguments : ∀ {pairs m d positional named}, Related usable pairs m d → AtTop pairs m d →
    (∀ expr ∈ positional, expr.Fit usable) → (∀ entry ∈ named, entry.2.Fit usable) →
    Tracks usable pairs m d (Arguments.Fit usable) (nesting.evalArguments steps positional named)
      (strategy.evalArguments · positional named)
  evalParameters : ∀ {pairs m d declared parameters}, Related usable pairs m d → AtTop pairs m d →
    declared.Fit usable →
    (∀ parameter ∈ parameters, ∀ default, parameter.2 = some default → default.Fit usable) →
    Tracks usable pairs m d (Parameters.Fit usable)
      (nesting.evalParameters steps declared parameters)
      (strategy.evalParameters · declared parameters)
  call : ∀ {pairs m d callee arguments}, Related usable pairs m d → usable callee →
    arguments.Fit usable →
    Tracks usable pairs m d usable (nesting.call steps callee arguments)
      (strategy.call · callee arguments)
  callFunction : ∀ {pairs m d address arguments}, Related usable pairs m d →
    usable (.function address) → arguments.Fit usable →
    Tracks usable pairs m d usable (nesting.callFunction steps address arguments)
      (strategy.callFunction · address arguments)
  callHost : ∀ {pairs m d name arguments}, Related usable pairs m d →
    Tracks usable pairs m d usable (nesting.callHost steps name .count arguments)
      (strategy.callHost · name .count arguments)
  callDrives : ∀ {pairs m d address arguments}, Related usable pairs m d →
    (m.heap.function address).callable.isNative = false → usable (.function address) →
    arguments.Fit usable →
    Tracks usable pairs m d usable (nesting.call steps (.function address) arguments)
      (strategy.drive · true address arguments)
  callFunctionDrives : ∀ {pairs m d address arguments}, Related usable pairs m d →
    (m.heap.function address).callable.isNative = false → usable (.function address) →
    arguments.Fit usable →
    Tracks usable pairs m d usable (nesting.callFunction steps address arguments)
      (strategy.drive · true address arguments)
  tailCall : ∀ {pairs m d callee arguments}, Related usable pairs m d → usable callee →
    arguments.Fit usable →
    strategy.TracksTail usable pairs m d (nesting.tailCall steps callee arguments)
      (strategy.tailCall · callee arguments)
  drive : ∀ {pairs m d repeated repeated' address arguments}, Related usable pairs m d →
    usable (.function address) → arguments.Fit usable →
    Tracks usable pairs m d usable (nesting.drive steps repeated address arguments)
      (strategy.drive · repeated' address arguments)
  invoke : ∀ {pairs m d address arguments}, Related usable pairs m d → usable (.function address) →
    arguments.Fit usable →
    Follows m d (strategy.BodyResult usable pairs m d) (nesting.invoke steps address arguments)
      (strategy.invoke · address arguments)

variable {strategy : Strategy}

theorem mimics_zero : strategy.Mimics usable 0 where
  eval _ _ _ := follows_outOfSteps
  evalTail _ _ _ := follows_outOfSteps
  evalBlock _ _ _ _ := follows_outOfSteps
  evalTailBlock _ _ _ := follows_outOfSteps
  evalList _ _ _ := follows_outOfSteps
  evalPairs _ _ _ := follows_outOfSteps
  evalNamed _ _ _ := follows_outOfSteps
  evalArguments _ _ _ _ := follows_outOfSteps
  evalParameters _ _ _ _ := follows_outOfSteps
  call _ _ _ := follows_outOfSteps
  callFunction _ _ _ := follows_outOfSteps
  callHost _ := follows_outOfSteps
  callDrives _ _ _ _ := follows_outOfSteps
  callFunctionDrives _ _ _ _ := follows_outOfSteps
  tailCall _ _ _ := follows_outOfSteps
  drive _ _ _ := follows_outOfSteps
  invoke _ _ _ := follows_outOfSteps

variable {steps : Nat}

/-! ## Sequences of expressions -/

theorem Mimics.evalBlock_succ (ih : strategy.Mimics usable steps) (hmd : Related usable pairs m d)
    (htop : AtTop pairs m d) {last : Value} (hlast : usable last) {body : List Expr}
    (hbody : ∀ expr ∈ body, expr.Fit usable) :
    Tracks usable pairs m d usable (nesting.evalBlock (steps + 1) last body)
      (strategy.evalBlock · last body) := by
  cases body with
  | nil =>
      rw [Strategy.evalBlock]
      exact .unfold (fun _ => by rw [Strategy.evalBlock]) (tracks_pure hmd hlast)
  | cons expr rest =>
      rw [Strategy.evalBlock]
      refine .unfold (fun _ => by rw [Strategy.evalBlock]) ?_
      obtain ⟨hexpr, hrest⟩ := List.forall_mem_cons.1 hbody
      refine (ih.eval hmd htop hexpr).bind fun value pairs m d hmd hcont hvalue => ?_
      exact ih.evalBlock hmd (htop.continues hcont) hvalue hrest

theorem Mimics.evalTailBlock_succ (ih : strategy.Mimics usable steps)
    (hmd : Related usable pairs m d) (htop : AtTop pairs m d) {body : List Expr}
    (hbody : ∀ expr ∈ body, expr.Fit usable) :
    strategy.TracksTail usable pairs m d (nesting.evalTailBlock (steps + 1) body)
      (strategy.evalTailBlock · body) := by
  match body with
  | [] =>
      rw [Strategy.evalTailBlock]
      exact .unfold (fun _ => by rw [Strategy.evalTailBlock]) (tracksTail_value hmd hmd.null)
  | [last] =>
      rw [Strategy.evalTailBlock]
      exact .unfold (fun _ => by rw [Strategy.evalTailBlock])
        (ih.evalTail hmd htop (hbody last List.mem_cons_self))
  | expr :: next :: rest =>
      rw [Strategy.evalTailBlock]
      · refine .unfold (fun _ => by rw [Strategy.evalTailBlock]; simp) ?_
        obtain ⟨hexpr, hrest⟩ := List.forall_mem_cons.1 hbody
        refine tracksTail_bind (ih.eval hmd htop hexpr).discard fun _ pairs m d hmd hcont _ => ?_
        exact ih.evalTailBlock hmd (htop.continues hcont) hrest
      · simp

theorem Mimics.evalList_succ (ih : strategy.Mimics usable steps) (hmd : Related usable pairs m d)
    (htop : AtTop pairs m d) {exprs : List Expr} (hexprs : ∀ expr ∈ exprs, expr.Fit usable) :
    Tracks usable pairs m d (fun values => ∀ value ∈ values, usable value)
      (nesting.evalList (steps + 1) exprs) (strategy.evalList · exprs) := by
  cases exprs with
  | nil =>
      rw [Strategy.evalList]
      exact .unfold (fun _ => by rw [Strategy.evalList]) (tracks_pure hmd (by simp))
  | cons expr rest =>
      rw [Strategy.evalList]
      refine .unfold (fun _ => by rw [Strategy.evalList]) ?_
      obtain ⟨hexpr, hrest⟩ := List.forall_mem_cons.1 hexprs
      refine (ih.eval hmd htop hexpr).bind fun value pairs m d hmd hcont hvalue => ?_
      refine (ih.evalList hmd (htop.continues hcont) hrest).bind
        fun values _ _ _ hmd _ hvalues => ?_
      exact tracks_pure hmd (List.forall_mem_cons.2 ⟨hvalue, hvalues⟩)

theorem Mimics.evalPairs_succ (ih : strategy.Mimics usable steps) (hmd : Related usable pairs m d)
    (htop : AtTop pairs m d) {entries : List (Expr × Expr)}
    (hentries : ∀ entry ∈ entries, entry.1.Fit usable ∧ entry.2.Fit usable) :
    Tracks usable pairs m d (fun values => ∀ entry ∈ values, usable entry.1 ∧ usable entry.2)
      (nesting.evalPairs (steps + 1) entries) (strategy.evalPairs · entries) := by
  match entries with
  | [] =>
      rw [Strategy.evalPairs]
      exact .unfold (fun _ => by rw [Strategy.evalPairs]) (tracks_pure hmd (by simp))
  | (key, value) :: rest =>
      rw [Strategy.evalPairs]
      refine .unfold (fun _ => by rw [Strategy.evalPairs]) ?_
      obtain ⟨⟨hkey, hvalue⟩, hrest⟩ := List.forall_mem_cons.1 hentries
      refine (ih.eval hmd htop hkey).bind fun key pairs m d hmd hcont hkey => ?_
      replace htop := htop.continues hcont
      refine (ih.eval hmd htop hvalue).bind fun value pairs m d hmd hcont hvalue => ?_
      replace htop := htop.continues hcont
      refine (ih.evalPairs hmd htop hrest).bind fun values _ _ _ hmd _ hvalues => ?_
      exact tracks_pure hmd (List.forall_mem_cons.2 ⟨⟨hkey, hvalue⟩, hvalues⟩)

theorem Mimics.evalNamed_succ (ih : strategy.Mimics usable steps) (hmd : Related usable pairs m d)
    (htop : AtTop pairs m d) {named : List (String × Expr)}
    (hnamed : ∀ entry ∈ named, entry.2.Fit usable) :
    Tracks usable pairs m d (fun entries => ∀ entry ∈ entries, usable entry.2)
      (nesting.evalNamed (steps + 1) named) (strategy.evalNamed · named) := by
  match named with
  | [] =>
      rw [Strategy.evalNamed]
      exact .unfold (fun _ => by rw [Strategy.evalNamed]) (tracks_pure hmd (by simp))
  | (name, expr) :: rest =>
      rw [Strategy.evalNamed]
      refine .unfold (fun _ => by rw [Strategy.evalNamed]) ?_
      obtain ⟨hexpr, hrest⟩ := List.forall_mem_cons.1 hnamed
      refine (ih.eval hmd htop hexpr).bind fun value pairs m d hmd hcont hvalue => ?_
      refine (ih.evalNamed hmd (htop.continues hcont) hrest).bind fun _ _ _ _ hmd _ hentries => ?_
      exact tracks_pure hmd (List.forall_mem_cons.2 ⟨hvalue, hentries⟩)

theorem Mimics.evalArguments_succ (ih : strategy.Mimics usable steps)
    (hmd : Related usable pairs m d) (htop : AtTop pairs m d) {positional : List Expr}
    {named : List (String × Expr)} (hpositional : ∀ expr ∈ positional, expr.Fit usable)
    (hnamed : ∀ entry ∈ named, entry.2.Fit usable) :
    Tracks usable pairs m d (Arguments.Fit usable)
      (nesting.evalArguments (steps + 1) positional named)
      (strategy.evalArguments · positional named) := by
  rw [Strategy.evalArguments]
  refine .unfold (fun _ => by rw [Strategy.evalArguments]) ?_
  refine (ih.evalList hmd htop hpositional).bind fun values pairs m d hmd hcont hvalues => ?_
  refine (ih.evalNamed hmd (htop.continues hcont) hnamed).bind fun _ _ _ _ hmd _ hentries => ?_
  exact tracks_pure hmd ⟨hvalues, hentries⟩

theorem Mimics.evalParameters_succ (ih : strategy.Mimics usable steps)
    (hmd : Related usable pairs m d) (htop : AtTop pairs m d) {declared : Parameters}
    (hdeclared : declared.Fit usable) {parameters : List (String × Option Expr)}
    (hparameters : ∀ parameter ∈ parameters,
      ∀ default, parameter.2 = some default → default.Fit usable) :
    Tracks usable pairs m d (Parameters.Fit usable)
      (nesting.evalParameters (steps + 1) declared parameters)
      (strategy.evalParameters · declared parameters) := by
  match parameters with
  | [] =>
      rw [Strategy.evalParameters]
      exact .unfold (fun _ => by rw [Strategy.evalParameters]) (tracks_pure hmd hdeclared)
  | (name, none) :: rest =>
      rw [Strategy.evalParameters]
      obtain ⟨-, hrest⟩ := List.forall_mem_cons.1 hparameters
      exact .unfold (fun _ => by rw [Strategy.evalParameters])
        (ih.evalParameters hmd htop (hdeclared.declare name (by simp)) hrest)
  | (name, some default) :: rest =>
      rw [Strategy.evalParameters]
      refine .unfold (fun _ => by rw [Strategy.evalParameters]) ?_
      obtain ⟨hdefault, hrest⟩ := List.forall_mem_cons.1 hparameters
      refine (ih.eval hmd htop (hdefault default rfl)).bind
        fun value pairs m d hmd hcont hvalue => ?_
      refine ih.evalParameters hmd (htop.continues hcont)
        (hdeclared.declare name fun found hfound => ?_) hrest
      exact ParameterDefault.value.inj hfound ▸ hvalue

/-! ## Calls -/

theorem tracks_readAttribute (hunwatched : strategy.watched = false)
    (hmd : Related usable pairs m d)
    {value : Value} (hvalue : usable value) (name : String) :
    Tracks usable pairs m d usable (nesting.readAttribute value name)
      fun _ => strategy.readAttribute value name := by
  refine follows_watch_bind rfl hunwatched fun hpoint => ?_
  refine tracks_lift (hmd.onHeap (fun _ => Heap.keeps_getAttribute hvalue name)
    (Heap.agrees_getAttribute fun hmark => ?_))
  simp [hmark.1, hmark.2] at hpoint

theorem Mimics.call_succ (ih : strategy.Mimics usable steps) (hmd : Related usable pairs m d)
    {callee : Value} (hcallee : usable callee) {arguments : Arguments}
    (hfit : arguments.Fit usable) :
    Tracks usable pairs m d usable (nesting.call (steps + 1) callee arguments)
      (strategy.call · callee arguments) := by
  cases callee with
  | function address =>
      rw [Strategy.call]
      exact .unfold (fun _ => by rw [Strategy.call]) (ih.callFunction hmd hcallee hfit)
  | module address =>
      rw [Strategy.call]
      refine .unfold (fun _ => by rw [Strategy.call]) ?_
      exact tracks_lift (hmd.onHeap (fun _ => Heap.keeps_instantiate hcallee hfit)
        (Heap.agrees_instantiate address arguments))
  | _ =>
      rw [Strategy.call] <;> first
        | exact .unfold (fun _ => by rw [Strategy.call] <;> simp)
            (tracks_throw hmd fun hkind => by cases hkind)
        | simp

theorem Mimics.callHost_succ (hmd : Related usable pairs m d) (name : String)
    (arguments : Arguments) :
    Tracks usable pairs m d usable (nesting.callHost (steps + 1) name .count arguments)
      (strategy.callHost · name .count arguments) := by
  rw [Strategy.callHost]
  exact .unfold (fun _ => by rw [Strategy.callHost]; rfl)
    (tracks_pure hmd (hmd.left.heap.unmade _ not_false))

theorem Mimics.callFunction_succ (ih : strategy.Mimics usable steps)
    (hmd : Related usable pairs m d)
    {address : Address} (haddress : usable (.function address)) {arguments : Arguments}
    (hfit : arguments.Fit usable) :
    Tracks usable pairs m d usable (nesting.callFunction (steps + 1) address arguments)
      (strategy.callFunction · address arguments) := by
  rw [Strategy.callFunction]
  refine .unfold (fun _ => by rw [Strategy.callFunction]) (follows_get_bind ?_)
  have hfunction := hmd.left.heap.function address haddress
  have hname := (hmd.heap.function address).name
  have halike := hmd.callable haddress
  -- The two functions have callables of one form, though their scopes may have different handles.
  generalize hcallable : (m.heap.function address).callable = callable at halike
  generalize hcallable' : (d.heap.function address).callable = callable' at halike
  cases halike with
  | @closure scope scope' body hscope =>
      simp only [hcallable, hcallable']
      exact ih.drive hmd haddress hfit
  | native hnative =>
      cases callable with
      | listMethod method receiver =>
          have hreceiver := hfunction.receiver (.list receiver) (by rw [hcallable]; rfl)
          simp only [hcallable, hcallable']
          exact tracks_lift (hmd.onHeap (fun _ => method.keeps_call hreceiver hfit hmd.null)
            (method.agrees_call receiver arguments))
      | dictMethod method receiver =>
          have hreceiver := hfunction.receiver (.dict receiver) (by rw [hcallable]; rfl)
          simp only [hcallable, hcallable']
          exact tracks_lift (hmd.onHeap (fun _ => method.keeps_call hreceiver hfit hmd.null)
            (method.agrees_call receiver arguments))
      | host routine =>
          obtain rfl := hfunction.host routine hcallable
          simp only [hcallable, hcallable', hname]
          exact ih.callHost hmd
      | closure scope body => simp [Callable.isNative] at hnative

theorem Mimics.callFunctionDrives_succ (ih : strategy.Mimics usable steps)
    (hmd : Related usable pairs m d) {address : Address}
    (hclosure : (m.heap.function address).callable.isNative = false)
    (haddress : usable (.function address)) {arguments : Arguments} (hfit : arguments.Fit usable) :
    Tracks usable pairs m d usable (nesting.callFunction (steps + 1) address arguments)
      (strategy.drive · true address arguments) := by
  rw [Strategy.callFunction]
  intro result hrun
  rw [bind_on, get_on] at hrun
  cases hcallable : (m.heap.function address).callable with
  | closure scope body =>
      simp only [hcallable] at hrun
      exact ih.drive hmd haddress hfit result hrun
  | _ => simp [hcallable, Callable.isNative] at hclosure

theorem Mimics.callDrives_succ (ih : strategy.Mimics usable steps) (hmd : Related usable pairs m d)
    {address : Address} (hclosure : (m.heap.function address).callable.isNative = false)
    (haddress : usable (.function address)) {arguments : Arguments} (hfit : arguments.Fit usable) :
    Tracks usable pairs m d usable (nesting.call (steps + 1) (.function address) arguments)
      (strategy.drive · true address arguments) := by
  rw [Strategy.call]
  exact ih.callFunctionDrives hmd hclosure haddress hfit

theorem Mimics.tailCall_succ (ih : strategy.Mimics usable steps) (hmd : Related usable pairs m d)
    {callee : Value} (hcallee : usable callee) {arguments : Arguments}
    (hfit : arguments.Fit usable) :
    strategy.TracksTail usable pairs m d (nesting.tailCall (steps + 1) callee arguments)
      (strategy.tailCall · callee arguments) := by
  have hfull : strategy.TracksTail usable pairs m d
      (do return .value (← nesting.call steps callee arguments))
      fun steps => do return .value (← strategy.call steps callee arguments) :=
    tracksTail_full (ih.call hmd hcallee hfit)
  cases callee with
  | function address =>
      have hname := (hmd.heap.function address).name
      have hnative := (hmd.callable hcallee).isNative
      rw [Strategy.tailCall]
      refine .unfold (fun _ => by rw [Strategy.tailCall]) (follows_get_bind ?_)
      simp only [hname, hnative]
      cases hclosure : (m.heap.function address).callable.isNative with
      | true => exact hfull
      | false =>
          obtain ⟨running, hrunning⟩ := hmd.left.exists_currentName
          obtain ⟨running', hrunning'⟩ := hmd.right.exists_currentName
          simp only [Bool.false_eq_true, if_false]
          refine follows_get_bind ?_
          simp only [hrunning, hrunning']
          -- The scopes on top may have different names, but only the second name is looked at.
          change strategy.TracksTail usable pairs m d
            (do return .value (← nesting.call steps (.function address) arguments)) fun steps =>
              if strategy.defers && running' == (m.heap.function address).name then
                pure (.deferred address arguments)
              else do return .value (← strategy.call steps (.function address) arguments)
          cases strategy.defers && running' == (m.heap.function address).name with
          | true =>
              exact tracksTail_deferred hmd fun _ _ hmd => ih.callDrives hmd hclosure hcallee hfit
          | false => exact hfull
  | _ =>
      rw [Strategy.tailCall] <;> first
        | exact .unfold (fun _ => by rw [Strategy.tailCall]; simp) hfull
        | simp

/-- A function that ends with a value is marked if calls were handed back. -/
theorem finish_on (repeated : Bool) (address : Address) (value : Value) (m : Machine) :
    (do
      if repeated then Machine.markOptimized address
      return value : Run Value) m = some (.ok value, m.markIf repeated address) := by
  cases repeated <;> rfl

theorem Mimics.drive_succ (ih : strategy.Mimics usable steps) (hmd : Related usable pairs m d)
    (repeated repeated' : Bool) {address : Address} (haddress : usable (.function address))
    {arguments : Arguments} (hfit : arguments.Fit usable) :
    Tracks usable pairs m d usable (nesting.drive (steps + 1) repeated address arguments)
      (strategy.drive · repeated' address arguments) := by
  rw [Strategy.drive]
  refine .unfold (fun _ => by rw [Strategy.drive]) ?_
  intro result hresult
  rw [bind_on] at hresult
  rcases hfirst : nesting.invoke steps address arguments m with _ | ⟨first, middle⟩
  · simp [hfirst] at hresult
  obtain ⟨⟨first', d₁⟩, hsettles, last, pairs', d', hlast, hcalm, hrelated, hcontinues, hcases⟩ :=
    ih.invoke hmd haddress hfit _ hfirst
  obtain rfl : first = last.map .value := hlast
  simp only [hfirst] at hresult
  -- The body ended on both sides, or the second run goes on with the call that was handed back.
  rcases hcases with hsame | ⟨next, arguments', hdeferred, hdrive⟩
  · obtain ⟨rfl, rfl⟩ := Prod.mk.inj hsame
    cases last with
    | error err =>
        obtain rfl := Option.some.inj hresult
        exact ⟨_, hsettles.bind_error, rfl, hcalm, pairs', hrelated, hcontinues⟩
    | ok value =>
        obtain rfl := Option.some.inj ((finish_on repeated address value middle).symm.trans hresult)
        exact ⟨_, hsettles.bind (.of_eq fun _ => finish_on repeated' address value d₁), rfl, hcalm,
          pairs', hrelated.markIf repeated repeated' haddress haddress,
          hcontinues.markIf repeated repeated' address address⟩
  · obtain rfl : first' = .ok (.deferred next arguments') := hdeferred
    cases last with
    | error err =>
        obtain rfl := Option.some.inj hresult
        exact ⟨_, hsettles.bind hdrive, rfl, hcalm, pairs', hrelated, hcontinues⟩
    | ok value =>
        obtain rfl := Option.some.inj ((finish_on repeated address value middle).symm.trans hresult)
        exact ⟨_, hsettles.bind hdrive, rfl, hcalm, pairs',
          hrelated.markIf repeated false haddress haddress,
          hcontinues.markIf repeated false address address⟩

theorem Mimics.invoke_succ (ih : strategy.Mimics usable steps)
    (hunwatched : strategy.watched = false)
    (hmd : Related usable pairs m d) {address : Address} (haddress : usable (.function address))
    {arguments : Arguments} (hfit : arguments.Fit usable) :
    Follows m d (strategy.BodyResult usable pairs m d)
    (nesting.invoke (steps + 1) address arguments)
      (strategy.invoke · address arguments) := by
  have hcall : Follows m d (strategy.BodyResult usable pairs m d)
      (do return .value (← nesting.callFunction steps address arguments))
      fun steps => do return .value (← strategy.callFunction steps address arguments) :=
    follows_full (ih.callFunction hmd haddress hfit)
  rw [Strategy.invoke]
  refine .unfold (fun _ => by rw [Strategy.invoke]) (follows_get_bind ?_)
  have hfunction := hmd.left.heap.function address haddress
  obtain ⟨hname, hparameters, -, -⟩ := hmd.heap.function address
  have halike := hmd.callable haddress
  generalize hcallable : (m.heap.function address).callable = callable at halike
  generalize hcallable' : (d.heap.function address).callable = callable' at halike
  cases halike with
  | native hnative =>
      cases callable with
      | closure scope body => simp [Callable.isNative] at hnative
      | _ =>
          simp only [hcallable, hcallable']
          exact hcall
  | @closure scope scope' body hscope =>
      simp only [hcallable, hcallable', hname, hparameters]
      have hbound := hfunction.parameters.calm_bind (m.heap.function address).name hfit
      cases hbinds : (m.heap.function address).parameters.bind (m.heap.function address).name
        arguments with
      | error err =>
          rw [hbinds] at hbound
          exact follows_ofOutcome ⟨.error err, pairs, d, rfl, hbound, hmd, .refl pairs m d,
            .inl rfl⟩
      | ok bound =>
          rw [hbinds] at hbound
          -- The run that nests has room for the scope, so the other one, which is no deeper, has
          -- it too.
          refine follows_ofOutcome_bind (follows_lift_bind (depth_on m) (depth_on d) ?_)
          refine follows_watch_bind rfl hunwatched fun hroom => ?_
          obtain ⟨id, id', record, record', opened, opened', hopen, hopen', hopens, hopens',
            hopened, htop⟩ := hmd.openFunctionRecord hscope hroom
              (m.heap.function address).name hbound
          exact follows_lift_bind hopen hopen' (follows_inScope hmd hopens hopens'
            (ih.evalTail hopened htop (hfunction.body scope body hcallable)))

/-! ## Expressions -/

theorem Mimics.handle_succ (ih : strategy.Mimics usable steps)
    (hunwatched : strategy.watched = false)
    (hmd : Related usable pairs m d) (htop : AtTop pairs m d) {body handler : Expr}
    (binding : String)
    (hbody : body.Fit usable) (hhandler : handler.Fit usable) :
    Tracks usable pairs m d usable (nesting.eval (steps + 1) (.handle body binding handler))
      (strategy.eval · (.handle body binding handler)) := by
  rw [Strategy.eval]
  refine .unfold (fun _ => by rw [Strategy.eval]) ?_
  refine follows_lift_bind (depth_on m) (depth_on d) ?_
  refine Tracks.bind (ih.eval hmd htop hbody).outcomeOf fun outcome pairs' m' d' hmd' hcont hcalm =>
    ?_
  replace htop := htop.continues hcont
  cases outcome with
  | ok value => exact tracks_pure hmd' hcalm
  | error err =>
      have herr : err.kind ≠ .internal := hcalm
      -- The body has left the same scopes open on both sides, so there is nothing to close.
      have hdepth : Machine.unwindTo m.stack.depth m' = (.ok (), m') := by
        rw [← hcont.left.stack]
        exact unwindTo_of_depth_le (Nat.le_max_left _ _)
      have hdepth' : Machine.unwindTo d.stack.depth d' = (.ok (), d') := by
        rw [← hcont.right.stack]
        exact unwindTo_of_depth_le (Nat.le_max_left _ _)
      simp only [if_neg herr]
      refine follows_lift_bind hdepth hdepth' (follows_watch_bind rfl hunwatched fun hroom => ?_)
      obtain ⟨id, id', record, record', opened, opened', hopen, hopen', hopens, hopens', hopened,
        htop⟩ := hmd'.pushRecord htop hroom handlerName .handler
      refine follows_lift_bind hopen hopen' (tracks_inScope hmd' hopens hopens' ?_)
      have hbinding : usable (.ofError err) :=
        hopened.left.heap.unmade _ (by cases err <;> exact not_false)
      exact (tracks_lift (hopened.define htop binding hbinding)).bind fun _ _ _ _ hmd hcont _ =>
        ih.eval hmd (htop.continues hcont) hhandler

theorem Mimics.binary_succ (ih : strategy.Mimics usable steps) (hmd : Related usable pairs m d)
    (htop : AtTop pairs m d) {left right : Expr} (operator : BinaryOperator)
    (hleft : left.Fit usable) (hright : right.Fit usable) :
    Tracks usable pairs m d usable (nesting.eval (steps + 1) (.binary operator left right))
      (strategy.eval · (.binary operator left right)) := by
  have htruth : ∀ {pairs m d}, Related usable pairs m d → AtTop pairs m d →
      Tracks usable pairs m d usable
        (do
          let right ← nesting.eval steps right
          return .boolean ((← get).heap.isTruthy right))
        fun steps => do
          let right ← strategy.eval steps right
          return .boolean ((← get).heap.isTruthy right) := fun hmd htop =>
    (ih.eval hmd htop hright).bind fun value _ _ _ hmd _ _ => follows_get_bind <| by
      rw [hmd.heap.truthy value]
      exact tracks_pure hmd (hmd.boolean _)
  by_cases hand : operator = .and
  · subst operator
    rw [Strategy.eval]
    refine .unfold (fun _ => by rw [Strategy.eval]) ?_
    refine (ih.eval hmd htop hleft).bind fun value pairs m d hmd hcont _ => follows_get_bind ?_
    simp only [hmd.heap.truthy value]
    cases m.heap.isTruthy value with
    | true => exact htruth hmd (htop.continues hcont)
    | false => exact tracks_pure hmd (hmd.boolean false)
  by_cases hor : operator = .or
  · subst operator
    rw [Strategy.eval]
    refine .unfold (fun _ => by rw [Strategy.eval]) ?_
    refine (ih.eval hmd htop hleft).bind fun value pairs m d hmd hcont _ => follows_get_bind ?_
    simp only [hmd.heap.truthy value]
    cases m.heap.isTruthy value with
    | true => exact tracks_pure hmd (hmd.boolean true)
    | false => exact htruth hmd (htop.continues hcont)
  rw [Strategy.eval]
  · refine .unfold (fun _ => by rw [Strategy.eval] <;> assumption) ?_
    refine (ih.eval hmd htop hleft).bind fun left pairs m d hmd hcont hleft => ?_
    refine (ih.eval hmd (htop.continues hcont) hright).bind fun right _ _ _ hmd _ hright => ?_
    exact tracks_lift (hmd.onHeap (fun _ => Heap.keeps_applyBinary operator hleft hright)
      (Heap.agrees_applyBinary operator left right))
  · exact hand
  · exact hor

section Forms

variable (ih : strategy.Mimics usable steps) (hmd : Related usable pairs m d)
  (htop : AtTop pairs m d)

include ih hmd htop

theorem Mimics.assign_succ {value : Expr} (name : String)
    (hfit : (Expr.assign name value).Fit usable) :
    Tracks usable pairs m d usable (nesting.eval (steps + 1) (.assign name value))
      (strategy.eval · (.assign name value)) := by
  rw [Strategy.eval]
  refine .unfold (fun _ => by rw [Strategy.eval]) ?_
  refine (ih.eval hmd htop (hfit.child List.mem_cons_self)).bind
    fun value pairs m d hmd hcont hvalue => ?_
  refine (tracks_lift (hmd.assign (htop.continues hcont) name hvalue)).bind
    fun _ _ _ _ hmd _ _ => ?_
  exact tracks_pure hmd hvalue

theorem Mimics.define_succ {value : Expr} (name : String)
    (hfit : (Expr.define name value).Fit usable) :
    Tracks usable pairs m d usable (nesting.eval (steps + 1) (.define name value))
      (strategy.eval · (.define name value)) := by
  rw [Strategy.eval]
  refine .unfold (fun _ => by rw [Strategy.eval]) ?_
  refine (ih.eval hmd htop (hfit.child List.mem_cons_self)).bind
    fun value pairs m d hmd hcont hvalue => ?_
  refine (tracks_lift (hmd.define (htop.continues hcont) name hvalue)).bind
    fun _ _ _ _ hmd _ _ => ?_
  exact tracks_pure hmd hvalue

theorem Mimics.unary_succ {operand : Expr} (operator : UnaryOperator)
    (hfit : (Expr.unary operator operand).Fit usable) :
    Tracks usable pairs m d usable (nesting.eval (steps + 1) (.unary operator operand))
      (strategy.eval · (.unary operator operand)) := by
  rw [Strategy.eval]
  refine .unfold (fun _ => by rw [Strategy.eval]) ?_
  refine (ih.eval hmd htop (hfit.child List.mem_cons_self)).bind
    fun value pairs m d hmd _ _ => follows_get_bind ?_
  rw [hmd.heap.applyUnary]
  exact tracks_ofOutcome hmd (hmd.left.heap.calm_applyUnary operator value)

theorem Mimics.conditional_succ {condition consequence : Expr} {alternative : Option Expr}
    (hfit : (Expr.conditional condition consequence alternative).Fit usable) :
    Tracks usable pairs m d usable
      (nesting.eval (steps + 1) (.conditional condition consequence alternative))
      (strategy.eval · (.conditional condition consequence alternative)) := by
  obtain ⟨hcondition, hconsequence, halternative⟩ := hfit.conditional
  rw [Strategy.eval]
  refine .unfold (fun _ => by rw [Strategy.eval]) ?_
  refine (ih.eval hmd htop hcondition).bind
    fun value pairs m d hmd hcont _ => follows_get_bind ?_
  replace htop := htop.continues hcont
  simp only [hmd.heap.truthy value]
  cases m.heap.isTruthy value with
  | true => exact ih.eval hmd htop hconsequence
  | false =>
      cases alternative with
      | some other => exact ih.eval hmd htop (halternative other rfl)
      | none => exact tracks_pure hmd hmd.null

theorem Mimics.list_succ {items : List Expr} (hfit : (Expr.list items).Fit usable) :
    Tracks usable pairs m d usable (nesting.eval (steps + 1) (.list items))
      (strategy.eval · (.list items)) := by
  rw [Strategy.eval]
  refine .unfold (fun _ => by rw [Strategy.eval]) ?_
  refine (ih.evalList hmd htop fun _ => hfit.child).bind fun values _ _ _ hmd _ hvalues => ?_
  exact tracks_lift (hmd.onHeap (fun _ => Heap.keeps_makeList hvalues)
    (Heap.agrees_makeList values))

theorem Mimics.dict_succ {entries : List (Expr × Expr)} (hfit : (Expr.dict entries).Fit usable) :
    Tracks usable pairs m d usable (nesting.eval (steps + 1) (.dict entries))
      (strategy.eval · (.dict entries)) := by
  rw [Strategy.eval]
  refine .unfold (fun _ => by rw [Strategy.eval]) ?_
  refine (ih.evalPairs hmd htop fun _ => hfit.dict).bind
    fun values _ _ _ hmd _ hvalues => ?_
  exact tracks_lift (hmd.onHeap (fun _ => Heap.keeps_dictOf hvalues)
    (Heap.agrees_dictOf values))

theorem Mimics.function_succ {parameters : List (String × Option Expr)} {body : Expr}
    (name : String) (doc : Option String)
    (hfit : (Expr.function name parameters body doc).Fit usable) :
    Tracks usable pairs m d usable (nesting.eval (steps + 1) (.function name parameters body doc))
      (strategy.eval · (.function name parameters body doc)) := by
  obtain ⟨hbody, hdefaults⟩ := hfit.function
  rw [Strategy.eval]
  refine .unfold (fun _ => by rw [Strategy.eval]) ?_
  refine (ih.evalParameters hmd htop Parameters.fit_empty hdefaults).bind
    fun parameters pairs m d hmd hcont hparameters => ?_
  refine (tracks_lift (hmd.defineFunction (htop.continues hcont) name hparameters
    hbody)).bind fun function _ _ _ hmd _ hfunction => ?_
  cases doc with
  | none => exact tracks_pure hmd hfunction
  | some text =>
      exact (tracks_lift (hmd.onHeap (fun _ => Heap.keeps_setDoc hfunction text)
        (Heap.agrees_setDoc function text))).bind fun _ _ _ _ hmd _ _ =>
          tracks_pure hmd hfunction

theorem Mimics.callExpr_succ {callee : Expr} {positional : List Expr} {named : List (String × Expr)}
    (hfit : (Expr.call callee positional named).Fit usable) :
    Tracks usable pairs m d usable (nesting.eval (steps + 1) (.call callee positional named))
      (strategy.eval · (.call callee positional named)) := by
  obtain ⟨hfirst, hpositional, hnamed⟩ := hfit.call
  rw [Strategy.eval]
  refine .unfold (fun _ => by rw [Strategy.eval]) ?_
  refine (ih.eval hmd htop hfirst).bind
    fun callee pairs m d hmd hcont hcallee => ?_
  replace htop := htop.continues hcont
  refine (ih.evalArguments hmd htop hpositional hnamed).bind
    fun arguments _ _ _ hmd _ harguments => ?_
  exact ih.call hmd hcallee harguments

theorem Mimics.getAttribute_succ {object : Expr} (name : String)
    (hunwatched : strategy.watched = false) (hfit : (Expr.getAttribute object name).Fit usable) :
    Tracks usable pairs m d usable (nesting.eval (steps + 1) (.getAttribute object name))
      (strategy.eval · (.getAttribute object name)) := by
  rw [Strategy.eval]
  refine .unfold (fun _ => by rw [Strategy.eval]) ?_
  refine (ih.eval hmd htop (hfit.child List.mem_cons_self)).bind
    fun object _ _ _ hmd _ hobject => ?_
  exact tracks_readAttribute hunwatched hmd hobject name

theorem Mimics.setAttribute_succ {object value : Expr} (name : String)
    (hfit : (Expr.setAttribute object name value).Fit usable) :
    Tracks usable pairs m d usable (nesting.eval (steps + 1) (.setAttribute object name value))
      (strategy.eval · (.setAttribute object name value)) := by
  obtain ⟨hobject, hvalue⟩ := hfit.setAttribute
  rw [Strategy.eval]
  refine .unfold (fun _ => by rw [Strategy.eval]) ?_
  refine (ih.eval hmd htop hobject).bind
    fun object pairs m d hmd hcont hobject => ?_
  refine (ih.eval hmd (htop.continues hcont) hvalue).bind
    fun value _ _ _ hmd _ hvalue => ?_
  refine (tracks_lift (hmd.onHeap (fun _ => Heap.keeps_setAttribute hobject name hvalue)
    (Heap.agrees_setAttribute object name value))).bind fun _ _ _ _ hmd _ _ => ?_
  exact tracks_pure hmd hvalue

theorem Mimics.callMethod_succ {receiver : Expr} {positional : List Expr}
    {named : List (String × Expr)} (name : String) (hunwatched : strategy.watched = false)
    (hfit : (Expr.callMethod receiver name positional named).Fit usable) :
    Tracks usable pairs m d usable
      (nesting.eval (steps + 1) (.callMethod receiver name positional named))
      (strategy.eval · (.callMethod receiver name positional named)) := by
  obtain ⟨hfirst, hpositional, hnamed⟩ := hfit.callMethod
  rw [Strategy.eval]
  refine .unfold (fun _ => by rw [Strategy.eval]) ?_
  refine (ih.eval hmd htop hfirst).bind
    fun receiver pairs m d hmd hcont hreceiver => ?_
  replace htop := htop.continues hcont
  refine (ih.evalArguments hmd htop hpositional hnamed).bind
    fun arguments _ _ _ hmd _ harguments => ?_
  exact (tracks_readAttribute hunwatched hmd hreceiver name).bind
    fun method _ _ _ hmd _ hmethod => ih.call hmd hmethod harguments

theorem Mimics.raise_succ {message : Expr} (label : String) (hunwatched : strategy.watched = false)
    (hfit : (Expr.raise label message).Fit usable) :
    Tracks usable pairs m d usable (nesting.eval (steps + 1) (.raise label message))
      (strategy.eval · (.raise label message)) := by
  rw [Strategy.eval]
  refine .unfold (fun _ => by rw [Strategy.eval]) ?_
  refine (ih.eval hmd htop (hfit.child List.mem_cons_self)).bind
    fun message _ _ _ hmd _ _ => ?_
  refine follows_watch_bind rfl hunwatched fun hshows => follows_get_bind ?_
  rw [hmd.heap.plainText hshows]
  exact tracks_throw hmd fun hkind => by cases hkind

end Forms

theorem Mimics.eval_succ (ih : strategy.Mimics usable steps) (hunwatched : strategy.watched = false)
    (hmd : Related usable pairs m d) (htop : AtTop pairs m d) {expr : Expr}
    (hfit : expr.Fit usable) :
    Tracks usable pairs m d usable (nesting.eval (steps + 1) expr) (strategy.eval · expr) := by
  cases expr with
  | literal value =>
      rw [Strategy.eval]
      exact .unfold (fun _ => by rw [Strategy.eval]) (tracks_pure hmd (hfit value (.literal value)))
  | name name =>
      rw [Strategy.eval]
      refine .unfold (fun _ => by rw [Strategy.eval]) (follows_get_bind ?_)
      rw [hmd.lookup htop]
      exact tracks_ofOutcome hmd (hmd.left.calm_lookup name)
  | assign name value => exact ih.assign_succ hmd htop name hfit
  | define name value => exact ih.define_succ hmd htop name hfit
  | unary operator operand => exact ih.unary_succ hmd htop operator hfit
  | binary operator left right =>
      obtain ⟨hleft, hright⟩ := hfit.binary
      exact ih.binary_succ hmd htop operator hleft hright
  | conditional condition consequence alternative => exact ih.conditional_succ hmd htop hfit
  | block body =>
      rw [Strategy.eval]
      exact .unfold (fun _ => by rw [Strategy.eval])
        (ih.evalBlock hmd htop hmd.null fun _ => hfit.child)
  | list items => exact ih.list_succ hmd htop hfit
  | dict entries => exact ih.dict_succ hmd htop hfit
  | function name parameters body doc => exact ih.function_succ hmd htop name doc hfit
  | call callee positional named => exact ih.callExpr_succ hmd htop hfit
  | getAttribute object name => exact ih.getAttribute_succ hmd htop name hunwatched hfit
  | setAttribute object name value => exact ih.setAttribute_succ hmd htop name hfit
  | callMethod receiver name positional named =>
      exact ih.callMethod_succ hmd htop name hunwatched hfit
  | raise label message => exact ih.raise_succ hmd htop label hunwatched hfit
  | handle body binding handler =>
      obtain ⟨hbody, hhandler⟩ := hfit.handle
      exact ih.handle_succ hunwatched hmd htop binding hbody hhandler

theorem Mimics.evalTail_succ (ih : strategy.Mimics usable steps)
    (hunwatched : strategy.watched = false) (hmd : Related usable pairs m d)
    (htop : AtTop pairs m d)
    {expr : Expr} (hfit : expr.Fit usable) :
    strategy.TracksTail usable pairs m d (nesting.evalTail (steps + 1) expr)
      (strategy.evalTail · expr) := by
  -- All other forms are evaluated as outside of tail position.
  have hother : strategy.TracksTail usable pairs m d (do return .value (← nesting.eval steps expr))
      fun steps => do return .value (← strategy.eval steps expr) :=
    tracksTail_full (ih.eval hmd htop hfit)
  cases expr with
  | call callee positional named =>
      obtain ⟨hfirst, hpositional, hnamed⟩ := hfit.call
      rw [Strategy.evalTail]
      refine .unfold (fun _ => by rw [Strategy.evalTail]) ?_
      refine tracksTail_bind (ih.eval hmd htop hfirst)
        fun callee pairs m d hmd hcont hcallee => ?_
      replace htop := htop.continues hcont
      refine tracksTail_bind (ih.evalArguments hmd htop hpositional hnamed)
        fun arguments _ _ _ hmd _ harguments => ?_
      exact ih.tailCall hmd hcallee harguments
  | callMethod receiver name positional named =>
      obtain ⟨hfirst, hpositional, hnamed⟩ := hfit.callMethod
      rw [Strategy.evalTail]
      refine .unfold (fun _ => by rw [Strategy.evalTail]) ?_
      refine tracksTail_bind (ih.eval hmd htop hfirst)
        fun receiver pairs m d hmd hcont hreceiver => ?_
      replace htop := htop.continues hcont
      refine tracksTail_bind (ih.evalArguments hmd htop hpositional hnamed)
        fun arguments _ _ _ hmd _ harguments => ?_
      exact tracksTail_bind (tracks_readAttribute hunwatched hmd hreceiver name)
        fun method _ _ _ hmd _ hmethod => ih.tailCall hmd hmethod harguments
  | conditional condition consequence alternative =>
      obtain ⟨hcondition, hconsequence, halternative⟩ := hfit.conditional
      rw [Strategy.evalTail]
      refine .unfold (fun _ => by rw [Strategy.evalTail]) ?_
      refine tracksTail_bind (ih.eval hmd htop hcondition)
        fun value pairs m d hmd hcont _ => follows_get_bind ?_
      replace htop := htop.continues hcont
      simp only [hmd.heap.truthy value]
      cases m.heap.isTruthy value with
      | true => exact ih.evalTail hmd htop hconsequence
      | false =>
          cases alternative with
          | some other => exact ih.evalTail hmd htop (halternative other rfl)
          | none => exact tracksTail_value hmd hmd.null
  | block body =>
      rw [Strategy.evalTail]
      exact .unfold (fun _ => by rw [Strategy.evalTail])
        (ih.evalTailBlock hmd htop fun _ => hfit.child)
  | _ =>
      rw [Strategy.evalTail]
      · exact .unfold (fun _ => by rw [Strategy.evalTail] <;> simp) hother
      all_goals simp

/-- However many steps the evaluator that makes every call in full takes, an unwatched evaluator
comes to the same. -/
theorem mimics (hunwatched : strategy.watched = false) (usable : Value → Prop) (steps : Nat) :
    strategy.Mimics usable steps := by
  induction steps with
  | zero => exact mimics_zero
  | succ steps ih =>
      exact {
        eval := fun hmd htop hfit => ih.eval_succ hunwatched hmd htop hfit
        evalTail := fun hmd htop hfit => ih.evalTail_succ hunwatched hmd htop hfit
        evalBlock := fun hmd htop hlast hbody => ih.evalBlock_succ hmd htop hlast hbody
        evalTailBlock := fun hmd htop hbody => ih.evalTailBlock_succ hmd htop hbody
        evalList := fun hmd htop hexprs => ih.evalList_succ hmd htop hexprs
        evalPairs := fun hmd htop hentries => ih.evalPairs_succ hmd htop hentries
        evalNamed := fun hmd htop hnamed => ih.evalNamed_succ hmd htop hnamed
        evalArguments := fun hmd htop hpositional hnamed =>
          ih.evalArguments_succ hmd htop hpositional hnamed
        evalParameters := fun hmd htop hdeclared hparameters =>
          ih.evalParameters_succ hmd htop hdeclared hparameters
        call := fun hmd hcallee hfit => ih.call_succ hmd hcallee hfit
        callFunction := fun hmd haddress hfit => ih.callFunction_succ hmd haddress hfit
        callHost := fun {_ _ _ name arguments} hmd => Mimics.callHost_succ hmd name arguments
        callDrives := fun hmd hclosure haddress hfit =>
          ih.callDrives_succ hmd hclosure haddress hfit
        callFunctionDrives := fun hmd hclosure haddress hfit =>
          ih.callFunctionDrives_succ hmd hclosure haddress hfit
        tailCall := fun hmd hcallee hfit => ih.tailCall_succ hmd hcallee hfit
        drive := fun {_ _ _ repeated repeated' _ _} hmd haddress hfit =>
          ih.drive_succ hmd repeated repeated' haddress hfit
        invoke := fun hmd haddress hfit => ih.invoke_succ hunwatched hmd haddress hfit }

end Strategy

/-! ## The language -/

/-- Two machines that came from one: they hold the same containers, and functions that differ at
most in marks and scopes; their records correspond, those that were there at the start to
themselves. -/
structure Machine.Matches (usable : Value → Prop) (pairs : RecordId → RecordId → Prop)
    (start m d : Machine) : Prop where
  heap : m.heap.Alike usable pairs d.heap
  arena : ScopeArena.Paired pairs m.arena d.arena
  kept : ∀ id, start.arena.isLive id = true → pairs id id
  level : ∀ id, start.arena.isLive id = true →
    (d.arena.record? id).map (·.level) = (m.arena.record? id).map (·.level)
  stack : m.stack = start.stack ∧ d.stack = start.stack

/-- **Handing calls back does not show.**  Whatever the evaluator that makes every call in full
comes to from a sound machine, without the stack being full, a function being shown or a mark being
read, the evaluator of the language comes to as well: to the same value or the same error, with the
same in every container and in every record that was there at the start. -/
theorem eval_of_nesting {usable : Value → Prop} {start m : Machine} (hstart : start.Sound usable)
    {expr : Expr} (hfit : expr.Fit usable) {steps : Nat} {outcome : Except RuntimeError Value}
    (hrun : Strategy.nesting.eval steps expr start = some (outcome, m)) :
    ∃ pairs d, (∃ bound, ∀ steps, bound ≤ steps → eval steps expr start = some (outcome, d)) ∧
      Machine.Matches usable pairs start m d := by
  obtain ⟨hself, htop⟩ := hstart.related_self
  have hmimics : Strategy.deferring.Mimics usable steps := Strategy.mimics rfl usable steps
  obtain ⟨⟨_, d⟩, hsettles, rfl, -, pairs, hrelated, hcontinues⟩ :=
    hmimics.eval hself htop hfit _ hrun
  -- Records keep their level on either side, and at the start the two sides are the same.
  have hlevel : ∀ {m' : Machine}, start.Evolves m' → ∀ id record,
      start.arena.record? id = some record →
      (m'.arena.record? id).map (·.level) = some record.level := by
    intro m' hevolves id record hrecord
    obtain ⟨later, hlater, -, -, hlevel, -⟩ := hevolves.records id record hrecord
    rw [hlater, Option.map_some, hlevel]
  exact ⟨pairs, d, hsettles, {
    heap := hrelated.heap
    arena := hrelated.arena
    kept := fun id hlive => hcontinues.kept id id ⟨rfl, hlive⟩
    level := by
      intro id hlive
      obtain ⟨record, hrecord⟩ := ScopeArena.isLive_iff.1 hlive
      exact (hlevel hcontinues.right id record hrecord).trans
        (hlevel hcontinues.left id record hrecord).symm
    stack := ⟨hcontinues.left.stack, hcontinues.right.stack⟩ }⟩

/-- A function that calls itself until its argument is empty. -/
def countdown : Expr :=
  .block [
    .function "f" [("rest", none)] (.conditional (.name "rest")
      (.block [.callMethod (.name "rest") "pop" [] [], .call (.name "f") [.name "rest"] []])
      (some (.literal (.string "done")))) none,
    .call (.name "f") [.list [.literal .null, .literal .null]] []]

/-- The calls of the function to itself are handed back, and the value is the same. -/
theorem eval_countdown : ∃ pairs m d,
    Strategy.nesting.eval 40 countdown (.start ⟨9⟩) = some (.ok (.string "done"), m) ∧
    (∃ bound, ∀ steps, bound ≤ steps →
      eval steps countdown (.start ⟨9⟩) = some (.ok (.string "done"), d)) ∧
    Machine.Matches (fun _ => True) pairs (.start ⟨9⟩) m d := by
  have hfirst : (Strategy.nesting.eval 40 countdown (.start ⟨9⟩)).map (·.1.toOption) =
      some (some (.string "done")) := by decide +kernel
  obtain ⟨⟨outcome, m⟩, hrun, houtcome⟩ := Option.map_eq_some_iff.1 hfirst
  obtain rfl : outcome = .ok (.string "done") := by
    cases outcome with
    | ok value => exact congrArg _ (Option.some.inj houtcome)
    | error err => simp [Except.toOption] at houtcome
  obtain ⟨pairs, d, hruns, hmatches⟩ := eval_of_nesting
    (Machine.sound_start ⟨9⟩ fun _ => Heap.sound_empty fun _ => trivial)
    (fun _ _ => trivial) hrun
  exact ⟨pairs, m, d, hrun, hruns, hmatches⟩

end ScriptCore
