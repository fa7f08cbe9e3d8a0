import ScriptCore.Proofs.Evaluation.Operations
import ScriptCore.Proofs.Machine.Needed

/-!
# Programs run in turn

A session is a row of programs that are run one after the other on the same machine.  After each
expression the machine is at a pause, where the collector frees what it does not reach; `pauses`
gives all the pauses of a session and `outcomes` what its programs come to.

The collector overlooks some of what a program can come to, so not every session is safe: one that
keeps a function as nothing but the default of a parameter finds it dead (`outcomes_keptByDefault`).
A session is safe exactly if at each of its pauses the collector reaches all records that are needed
(`safe_iff_covered`).
-/

namespace ScriptCore.Session

open Machine

/-- The pauses of a program after which the expressions `later` are still to be evaluated. -/
def pausesOf (steps : Nat) : List Expr → List Expr → Machine → List Pause
  | [], _, _ => []
  | expr :: rest, later, m =>
    match eval steps expr m with
    | some (.ok value, m) =>
      let pause : Pause := ⟨m, value, rest ++ later⟩
      pause :: pausesOf steps rest later pause.collected
    | _ => []

/-- The pauses of a session. -/
def pauses (steps : Nat) : List (List Expr) → Machine → List Pause
  | [], _ => []
  | program :: rest, m =>
    pausesOf steps program rest.flatten m ++
      match runProgram steps program m with
      | some (_, m) => pauses steps rest m
      | none => []

/-- What the programs of a session come to. -/
def outcomes (steps : Nat) : List (List Expr) → Machine → List (Except RuntimeError Value)
  | [], _ => []
  | program :: rest, m =>
    match runProgram steps program m with
    | some (outcome, m) => outcome :: outcomes steps rest m
    | none => []

/-- At each pause the collector reaches all that is needed. -/
def Covered (steps : Nat) (session : List (List Expr)) (m : Machine) : Prop :=
  ∀ p ∈ pauses steps session m, p.Covers

/-- No collection frees what is needed, and no program ends at a dead record. -/
structure Safe (steps : Nat) (session : List (List Expr)) (m : Machine) : Prop where
  kept : ∀ p ∈ pauses steps session m, p.KeepsNeeded
  calm : ∀ outcome ∈ outcomes steps session m, ∀ index, outcome ≠ .error (.deadRecord index)

/-! ## Machines that are ready for what comes -/

/-- The machine is sound for values among which are the literals of the given expressions. -/
def Ready (later : List Expr) (m : Machine) : Prop :=
  ∃ usable : Value → Prop, m.Sound usable ∧ ∀ expr ∈ later, expr.Fit usable

variable {steps : Nat} {m m' : Machine} {expr : Expr} {program later : List Expr}
  {outcome : Except RuntimeError Value}

theorem Ready.subset {fewer : List Expr} (hm : Ready later m) (hsubset : fewer ⊆ later) :
    Ready fewer m := by
  obtain ⟨usable, hsound, hlater⟩ := hm
  exact ⟨usable, hsound, fun expr hexpr => hlater expr (hsubset hexpr)⟩

/-- Evaluating an expression leads to a pause that is fit, or to an error of the program's own. -/
theorem Ready.eval_fit (hm : Ready (expr :: later) m)
    (heval : eval steps expr m = some (outcome, m')) :
    Ready later m' ∧ Calm (fun value => ∃ usable, Pause.Fit usable ⟨m', value, later⟩) outcome := by
  obtain ⟨usable, hsound, hfit⟩ := hm
  have hlater : ∀ expr ∈ later, expr.Fit usable := fun expr hexpr =>
    hfit expr (List.mem_cons_of_mem _ hexpr)
  obtain ⟨hafter, hcalm⟩ := (Strategy.preserves Strategy.deferring usable steps).eval hsound.later
    (hfit expr List.mem_cons_self) outcome m' heval
  refine ⟨⟨usable, hafter.sound, hlater⟩, ?_⟩
  cases outcome with
  | error err => exact hcalm
  | ok value => exact ⟨usable, hafter.sound, hcalm, hlater⟩

theorem ready_collected {p : Pause} {usable : Value → Prop} (hp : p.Fit usable)
    (hcovers : p.Covers) : Ready p.later p.collected :=
  ⟨p.Remains, hp.sound_collected hcovers, fun _ hexpr => Pause.fit_later hexpr⟩

/-! ## One program -/

/-- Running a program: its first expression, a collection and the rest, unless the expression
fails. -/
theorem runFrom_cons_on (last : Value) (rest : List Expr) (m : Machine) :
    Strategy.deferring.runFrom steps last (expr :: rest) m =
      match eval steps expr m with
      | none => none
      | some (.error err, m') => some (.error err, m')
      | some (.ok value, m') =>
        Strategy.deferring.runFrom steps value rest (collect [value] m').2 := by
  rw [Strategy.runFrom, Run.bind_on, eval]
  rcases Strategy.eval .deferring steps expr m with _ | ⟨_ | value, m'⟩
  · rfl
  · rfl
  · rfl

/-- If every pause that is fit covers what is needed, then all pauses of the program are fit, it
ends at no dead record, and the machine is ready for what comes. -/
theorem Ready.program_fit (hm : Ready (program ++ later) m) (last : Value)
    (hcovers : ∀ p ∈ pausesOf steps program later m, (∃ usable, p.Fit usable) → p.Covers) :
    (∀ p ∈ pausesOf steps program later m, ∃ usable, p.Fit usable) ∧
      ∀ outcome m', Strategy.deferring.runFrom steps last program m = some (outcome, m') →
        Ready later m' ∧ Calm (fun _ => True) outcome := by
  induction program generalizing m last with
  | nil =>
      refine ⟨fun p hp => absurd hp List.not_mem_nil, fun outcome m' hrun => ?_⟩
      obtain ⟨rfl, rfl⟩ := Prod.mk.inj (Option.some.inj hrun)
      exact ⟨hm, trivial⟩
  | cons expr rest ih =>
      rw [pausesOf] at hcovers ⊢
      simp only [runFrom_cons_on]
      cases heval : eval steps expr m with
      | none => exact ⟨fun p hp => absurd hp List.not_mem_nil, nofun⟩
      | some result =>
          obtain ⟨outcome, after⟩ := result
          obtain ⟨hready, hcalm⟩ := hm.eval_fit heval
          cases outcome with
          -- The rest of the program is not evaluated, but programs after it are.
          | error err =>
              refine ⟨fun p hp => absurd hp List.not_mem_nil, fun outcome m' hrun => ?_⟩
              obtain ⟨rfl, rfl⟩ := Prod.mk.inj (Option.some.inj hrun)
              exact ⟨hready.subset (List.subset_append_right _ _), hcalm⟩
          | ok value =>
              rw [heval] at hcovers
              obtain ⟨usable, hfit⟩ := hcalm
              -- The pause is fit, so it covers what is needed, and the rest starts on a sound
              -- machine again.
              have hfirst := hcovers _ List.mem_cons_self ⟨usable, hfit⟩
              obtain ⟨hpauses, hend⟩ := ih (ready_collected hfit hfirst) value
                fun p hp => hcovers p (List.mem_cons_of_mem _ hp)
              refine ⟨fun p hp => ?_, hend⟩
              rcases List.mem_cons.1 hp with rfl | hrest
              · exact ⟨usable, hfit⟩
              · exact hpauses p hrest

/-! ## A whole session -/

theorem Ready.session_fit {session : List (List Expr)} (hm : Ready session.flatten m)
    (hcovers : ∀ p ∈ pauses steps session m, (∃ usable, p.Fit usable) → p.Covers) :
    (∀ p ∈ pauses steps session m, ∃ usable, p.Fit usable) ∧
      ∀ outcome ∈ outcomes steps session m, Calm (fun _ => True) outcome := by
  induction session generalizing m with
  | nil => exact ⟨fun p hp => absurd hp List.not_mem_nil, fun _ h => absurd h List.not_mem_nil⟩
  | cons program rest ih =>
      rw [pauses] at hcovers ⊢
      rw [outcomes]
      -- The first program is safe by its own pauses, and what it leaves is ready for the rest.
      obtain ⟨hpauses, hend⟩ := hm.program_fit .null fun p hp =>
        hcovers p (List.mem_append_left _ hp)
      cases hrun : runProgram steps program m with
      | none =>
          refine ⟨fun p hp => ?_, fun _ h => absurd h List.not_mem_nil⟩
          rw [List.append_nil] at hp
          exact hpauses p hp
      | some result =>
          obtain ⟨outcome, after⟩ := result
          obtain ⟨hready, hcalm⟩ := hend outcome after hrun
          rw [hrun] at hcovers
          obtain ⟨hlater, hothers⟩ := ih hready fun p hp =>
            hcovers p (List.mem_append_right _ hp)
          refine ⟨fun p hp => ?_, fun other hother => ?_⟩
          · exact (List.mem_append.1 hp).elim (hpauses p) (hlater p)
          · rcases List.mem_cons.1 hother with rfl | hrest
            · exact hcalm
            · exact hothers other hrest

/-- At the start a machine is ready for whatever is to be run on it. -/
theorem ready_start (config : Config) {heap : Heap} (hheap : heap.WellFormed)
    (hfunctions : heap.functions = #[]) (later : List Expr) :
    Ready later { start config with heap } := by
  refine ⟨Anything, sound_start config fun captured => ?_, fun expr _ => fit_anything expr⟩
  exact Sound.withContainers (Heap.sound_empty fun _ => trivial) hheap hfunctions

/-- A session on a new machine is safe if and only if at each of its pauses the collector reaches
every live record that is needed.  In the heap are the containers of the literals, and no function
yet. -/
theorem safe_iff_covered (config : Config) {heap : Heap} (hheap : heap.WellFormed)
    (hfunctions : heap.functions = #[]) (steps : Nat) (session : List (List Expr)) :
    Safe steps session { start config with heap } ↔
      Covered steps session { start config with heap } := by
  have hready := ready_start config hheap hfunctions session.flatten
  constructor
  · intro hsafe
    have hcovers : ∀ p ∈ pauses steps session { start config with heap },
        (∃ usable, p.Fit usable) → p.Covers := fun p hp ⟨_, hfit⟩ =>
      (Pause.keepsNeeded_iff_covers hfit).1 (hsafe.kept p hp)
    exact fun p hp => hcovers p hp ((hready.session_fit hcovers).1 p hp)
  · intro hcovered
    obtain ⟨hfit, hcalm⟩ := hready.session_fit fun p hp _ => hcovered p hp
    refine ⟨fun p hp => ?_, fun outcome houtcome => (hcalm outcome houtcome).ne_deadRecord⟩
    obtain ⟨usable, hfits⟩ := hfit p hp
    exact (Pause.keepsNeeded_iff_covers hfits).2 (hcovered p hp)

/-! ## Sessions that are safe and sessions that are not -/

/-- A function that gives back a function defined in it. -/
def make : Expr :=
  .functionOf "make" [] (.block [.functionOf "inner" [] (.int 1), .name "inner"])

/-- The function is kept under a name and called by the next program. -/
def keptByName : List (List Expr) :=
  [[make, .assign "kept" (.callName "make" [])], [.callName "kept" []]]

/-- The function is kept only as the default of a parameter. -/
def keptByDefault : List (List Expr) :=
  [[make, .function "f" [("callback", some (.callName "make" []))] (.callName "callback" []) none,
    .callName "f" []]]

/-- The function is kept only in a list that stands in the body of another function. -/
def keptInBody : List (List Expr) :=
  [[make, .functionOf "items" [] (.literal (.list 0)),
    .callMethod (.callName "items" []) "append" [.callName "make" []] [],
    .call (.callMethod (.callName "items" []) "get" [.int 0] []) [] []]]

/-- The function is kept only in a list that is the default of a field of a struct. -/
def keptByTemplate : List (List Expr) :=
  [[make, .assign "box" (.literal (.module 0)),
    .callMethod (.getAttribute (.callName "box" []) "items") "append" [.callName "make" []] [],
    .call (.callMethod (.getAttribute (.callName "box" []) "items") "get" [.int 0] []) [] []]]

/-- A list and a module that makes structs with a field, in which the list stands by default. -/
def boxHeap : Heap :=
  (((Heap.empty).newList []).2.newModule "box" (some (.ofList [("items", .value (.list 0))]))).2

/-- A function that is kept under a name stays alive, and the next program can call it. -/
theorem safe_keptByName :
    outcomes 20 keptByName (start ⟨10⟩) = [.ok (.function 1), .ok (.integer 1)] ∧
    Heap.empty.WellFormed ∧ Heap.empty.functions = #[] ∧
    Safe 20 keptByName { start ⟨10⟩ with heap := .empty } := by
  have hempty := Heap.wellFormed_empty
  have hready := ready_start ⟨10⟩ hempty rfl keptByName.flatten
  have hnone : ((pauses 20 keptByName { start ⟨10⟩ with heap := .empty }).all fun p =>
      (p.machine.arena.collect p.machine.heap p.machine.stack.records.toList [p.value]).1 == 0) =
        true := by decide +kernel
  have hcovers : ∀ p ∈ pauses 20 keptByName { start ⟨10⟩ with heap := .empty },
      (∃ usable, p.Fit usable) → p.Covers := fun p hp ⟨_, hfit⟩ =>
    hfit.covers_of_frees_nothing (eq_of_beq (List.all_eq_true.1 hnone p hp))
  have hcovered : Covered 20 keptByName { start ⟨10⟩ with heap := .empty } := fun p hp =>
    hcovers p hp ((hready.session_fit hcovers).1 p hp)
  exact ⟨by decide +kernel, hempty, rfl, (safe_iff_covered ⟨10⟩ hempty rfl 20 keptByName).2
    hcovered⟩

/-- A function that is kept in nothing but what the collector overlooks is found dead. -/
theorem outcomes_keptByDefault :
    outcomes 20 keptByDefault (start ⟨10⟩) = [.error (.deadRecord 1)] ∧
    outcomes 20 keptInBody { start ⟨10⟩ with heap := boxHeap } = [.error (.deadRecord 1)] ∧
    outcomes 20 keptByTemplate { start ⟨10⟩ with heap := boxHeap } = [.error (.deadRecord 1)] := by
  refine ⟨?_, ?_, ?_⟩ <;> decide +kernel

end ScriptCore.Session
