import ScriptCore.Proofs.Evaluation.Recursion
import Mathlib.Tactic.Ring

/-!
# Two ways to sum

The function of `Expr.nestedSum` calls itself in an operand, so each of its calls needs a scope on
the stack while the inner ones run: the sum comes out if there is room for one scope more than the
number, besides the scope of the program, and otherwise the calls fail where the stack is full
(`settles_nested`).

The function of `Expr.tailSum` calls itself in tail position.  Each call is handed back and made
when the scope before it is closed, so that room for one scope is enough for any number
(`settles_tail`); what is left to sum and what is summed already are its arguments.

Both sums are taken in 64 bits.  Neither way leaves a record behind.
-/

namespace ScriptCore

open Machine Run

/-! ## Numbers -/

/-- The sum of the numbers up to a number, in 64 bits. -/
def sumUpTo (number : Nat) : Int64 :=
  .ofNat (number * (number + 1) / 2)

theorem sumUpTo_succ (number : Nat) :
    sumUpTo (number + 1) = .ofNat (number + 1) + sumUpTo number := by
  have htriangle : (number + 1) * (number + 1 + 1) = 2 * (number + 1) + number * (number + 1) := by
    ring
  rw [sumUpTo, sumUpTo, ← Int64.ofNat_add, htriangle, Nat.mul_add_div Nat.two_pos]

theorem eq_ofNat_of_toInt {n : Int64} {k : Nat} (hn : n.toInt.toNat = k + 1) :
    n = .ofNat (k + 1) := by
  have hpos : 0 ≤ n.toInt := by omega
  rw [← Int64.ofInt_eq_ofNat, ← hn, Int.toNat_of_nonneg hpos, Int64.ofInt_toInt]

theorem toNat_pred {n : Int64} {k : Nat} (hn : n.toInt.toNat = k + 1) :
    (n - 1).toInt.toNat = k := by
  have hlt := n.toInt_lt
  have hpred : (n - 1).toInt = n.toInt - 1 := by
    rw [Int64.toInt_sub]
    exact Int.bmod_eq_of_le (show _ ≤ n.toInt - 1 by omega) (show n.toInt - 1 < _ by omega)
  omega

theorem greater_zero (n : Int64) (h : Heap) :
    Heap.applyBinary .greater (.integer n) (.integer 0) h =
      (.ok (.boolean (decide (0 < n.toInt))), h) := by
  have hzero : (0 : Int64).toInt = 0 := rfl
  -- The order of two integers is told by their values in `ℤ`.
  have hgreater : compareIntegers n 0 = .gt ↔ 0 < n.toInt := by
    rw [compareIntegers]
    split_ifs with hlt heq
    · rw [Int64.lt_iff_toInt_lt, hzero] at hlt
      simp only [false_iff]
      omega
    · rw [heq, hzero]
      simp
    · rw [Int64.lt_iff_toInt_lt, hzero] at hlt
      rw [← Int64.toInt_inj, hzero] at heq
      simp only [true_iff]
      omega
  simp only [Heap.applyBinary, Attempt.reading, Heap.ordering, compareValues,
    BinaryOperator.holdsFor, Option.getD_some, Except.map, hgreater]

/-! ## Calls that nest -/

section Number

variable {strategy : Strategy} {m : Machine} {n : Int64}

theorem settles_positive (hn : m.lookup "n" = .ok (.integer n)) :
    Settles (strategy.eval · (.binary .greater (.name "n") (.int 0))) m
      (.ok (.boolean (decide (0 < n.toInt))), m) := by
  have hcompared : Settles (strategy.eval · (.binary .greater (.name "n") (.int 0))) m
      (onHeap (Heap.applyBinary .greater (.integer n) (.integer 0)) m) :=
    Strategy.settles_binary nofun nofun (Strategy.settles_name hn) (Strategy.settles_literal ..)
  rwa [onHeap_on, greater_zero] at hcompared

/-- Both bodies go on as long as there is something left to sum. -/
theorem settles_evalTail_positive {consequence alternative : Expr}
    {result : Except RuntimeError Completion × Machine} (hn : m.lookup "n" = .ok (.integer n))
    (hbranch : Settles (strategy.evalTail · (if 0 < n.toInt.toNat then consequence
      else alternative)) m result) :
    Settles (strategy.evalTail · (.conditional (.binary .greater (.name "n") (.int 0))
      consequence alternative)) m result := by
  have htruth : m.heap.isTruthy (.boolean (decide (0 < n.toInt))) = true ↔ 0 < n.toInt.toNat := by
    rw [Heap.isTruthy, decide_eq_true_iff, Int.lt_toNat, Nat.cast_zero]
  refine Strategy.settles_evalTail_conditional (settles_positive hn) ?_
  simpa only [htruth] using hbranch

theorem settles_pred (hn : m.lookup "n" = .ok (.integer n)) :
    Settles (strategy.eval · (.binary .subtract (.name "n") (.int 1))) m
      (.ok (.integer (n - 1)), m) :=
  Strategy.settles_subtract (Strategy.settles_name hn) (Strategy.settles_literal ..)

end Number

/-- The body of the function whose calls nest. -/
def nestedBody (f : String) : Expr :=
  .conditional (.binary .greater (.name "n") (.int 0))
    (.binary .add (.name "n") (.callName f [.binary .subtract (.name "n") (.int 1)]))
    (some (.int 0))

/-- The function whose calls nest, as it is defined in a scope. -/
def nestedFunction (f : String) (scope : RecordId) : Function :=
  definedFunction f (.required ["n"]) scope (nestedBody f)

theorem bind_nested (f : String) (value : Value) :
    (Parameters.required ["n"]).bind f ⟨[value], []⟩ = .ok [("n", value)] :=
  rfl

/-- What a call comes to that takes room for one scope more than the number. -/
def nestedOutcome (f : String) (stack : CallStack) (k : Nat) : Except RuntimeError Int64 :=
  if stack.depth + k < stack.limit then .ok (sumUpTo k)
  else .error (.depthExceeded stack.limit f)

section Nested

variable {m opened : Machine} {address : Address} {scope : RecordId} {f : String} {n : Int64}
  {k made : Nat}

theorem settles_nestedBody_zero
    (hcall : opened.InCall address (nestedFunction f scope) scope [("n", .integer n)])
    (hn : n.toInt.toNat = 0) :
    SettlesInPlace (Strategy.deferring.evalTail · (nestedBody f)) opened 0
      (.ok (.value (.integer 0))) := by
  have hlookup := hcall.parameters "n" (.integer n) List.mem_cons_self
  refine settlesInPlace_of_settles hcall.tidy (settles_evalTail_positive hlookup ?_)
  rw [hn, if_neg (Nat.lt_irrefl 0)]
  have hzero := Strategy.settles_literal .deferring (.integer 0) opened
  exact Strategy.settles_evalTail_of_eval (fun steps => by rw [Strategy.evalTail] <;> simp) hzero

/-- The number is added to what the inner call comes to. -/
theorem settles_nestedBody_succ
    (hcall : opened.InCall address (nestedFunction f scope) scope [("n", .integer n)])
    (hn : n.toInt.toNat = k + 1) {outcome : Except RuntimeError Int64}
    (hinner : SettlesInPlace (Strategy.deferring.drive · false address ⟨[.integer (n - 1)], []⟩)
      opened made (outcome.map .integer)) :
    SettlesInPlace (Strategy.deferring.evalTail · (nestedBody f)) opened made
      (outcome.map fun sum => .value (.integer (n + sum))) := by
  have hlookup := hcall.parameters "n" (.integer n) List.mem_cons_self
  obtain ⟨arena, hsettles, harena⟩ := hinner
  refine ⟨arena, settles_evalTail_positive hlookup ?_, harena⟩
  rw [hn, if_pos k.succ_pos]
  have harguments := Strategy.settles_evalList_cons (settles_pred hlookup)
    (Strategy.settles_evalList_nil .deferring opened)
  have hinnerCall := Strategy.settles_callName hcall.itself harguments
    (Strategy.settles_call_function (by rw [hcall.function_eq]; rfl) hsettles)
  have hsum : Settles (Strategy.deferring.eval · (.binary .add (.name "n")
      (.callName f [.binary .subtract (.name "n") (.int 1)]))) opened
      (outcome.map fun sum => .integer (n + sum), { opened with arena }) := by
    -- If the inner call fails, the sum fails with the same error.
    cases outcome with
    | error err =>
        exact Strategy.settles_binary_error nofun nofun (Strategy.settles_name hlookup) hinnerCall
    | ok sum => exact Strategy.settles_add (Strategy.settles_name hlookup) hinnerCall
  have htail := Strategy.settles_evalTail_of_eval
    (fun steps => by rw [Strategy.evalTail] <;> simp) hsum
  cases outcome <;> exact htail

/-- A call for which there is room comes to what its body comes to. -/
theorem settles_nested_of_body (hf : f ≠ "n")
    (hm : m.Offers address (nestedFunction f scope) scope) (hroom : m.stack.isFull = false)
    {outcome : Except RuntimeError Int64}
    (hbody : ∀ opened : Machine,
      opened.InCall address (nestedFunction f scope) scope [("n", .integer n)] →
      opened.stack.depth = m.stack.depth + 1 → opened.stack.limit = m.stack.limit →
      SettlesInPlace (Strategy.deferring.evalTail · (nestedBody f)) opened made
        (outcome.map fun sum => .value (.integer sum))) :
    SettlesInPlace (Strategy.deferring.drive · false address ⟨[.integer n], []⟩) m (made + 1)
      (outcome.map .integer) := by
  refine SettlesInPlace.drive ?_
  have hmap : (outcome.map Value.integer).map Completion.value =
      outcome.map fun sum => .value (.integer sum) := by
    cases outcome <;> rfl
  rw [hmap]
  exact hm.settles_invoke rfl (bind_nested f (.integer n)) (List.nodup_singleton _)
    (fun hmem => hf (List.mem_singleton.1 hmem)) hroom hbody

theorem settles_nested_of_isFull (hm : m.Offers address (nestedFunction f scope) scope)
    (hfull : m.stack.isFull = true) (k : Nat) :
    SettlesInPlace (Strategy.deferring.drive · false address ⟨[.integer n], []⟩) m
      (min k (m.stack.limit - m.stack.depth) + 1) ((nestedOutcome f m.stack k).map .integer) := by
  have hdepth : m.stack.limit ≤ m.stack.depth := by simpa [CallStack.isFull] using hfull
  rw [nestedOutcome, if_neg (by omega), Nat.sub_eq_zero_of_le hdepth, Nat.min_zero]
  obtain ⟨arena, hfail, hsame, hmade⟩ := hm.fails hfull [("n", .integer n)]
  have hinvoke := Strategy.settles_invoke_error (m := m) (by rw [hm.function_eq]; rfl)
    (by rw [hm.function_eq]; exact bind_nested f (.integer n)) (by rw [hm.function_eq, hfail])
  exact ⟨arena, Strategy.settles_drive_error hinvoke, hsame, hmade⟩

/-- The calls nest until the number is zero or there is no room on the stack, which is found out
with one record more. -/
theorem settles_nested (hf : f ≠ "n") (k : Nat) : ∀ {m : Machine} {n : Int64},
    n.toInt.toNat = k → m.Offers address (nestedFunction f scope) scope →
    SettlesInPlace (Strategy.deferring.drive · false address ⟨[.integer n], []⟩) m
      (min k (m.stack.limit - m.stack.depth) + 1) ((nestedOutcome f m.stack k).map .integer) := by
  induction k with
  | zero =>
      intro m n hn hm
      cases hfull : m.stack.isFull with
      | true => exact settles_nested_of_isFull hm hfull 0
      | false =>
          have hroom : m.stack.depth < m.stack.limit := by simpa [CallStack.isFull] using hfull
          rw [nestedOutcome, if_pos (by omega), Nat.zero_min]
          exact settles_nested_of_body hf hm hfull fun opened hcall _ _ =>
            settles_nestedBody_zero hcall hn
  | succ k ih =>
      intro m n hn hm
      cases hfull : m.stack.isFull with
      | true => exact settles_nested_of_isFull hm hfull (k + 1)
      | false =>
          have hroom : m.stack.depth < m.stack.limit := by simpa [CallStack.isFull] using hfull
          refine settles_nested_of_body hf hm hfull fun opened hcall hdeeper hlimit => ?_
          -- The inner call has one scope more below it and one number less to sum.
          have hinner := ih (toNat_pred hn) hcall.toOffers
          have hbody := settles_nestedBody_succ hcall hn hinner
          have hmade : min k (opened.stack.limit - opened.stack.depth) + 1 =
              min (k + 1) (m.stack.limit - m.stack.depth) := by omega
          have houtcome : ((nestedOutcome f opened.stack k).map fun sum =>
              Completion.value (.integer (n + sum))) =
              (nestedOutcome f m.stack (k + 1)).map fun sum => .value (.integer sum) := by
            rw [nestedOutcome, nestedOutcome, hdeeper, hlimit, Nat.succ_add_eq_add_succ]
            split
            · rw [eq_ofNat_of_toInt hn, sumUpTo_succ]
              rfl
            · rfl
          rwa [hmade, houtcome] at hbody

end Nested

/-- **Calls that nest overflow exactly when they do not fit.**  The program comes to the sum if
there is room for one scope more than the number, besides its own; otherwise the stack overflows.
Either way only the scope of the program is left, and the function is not marked. -/
theorem nestedSum_exact (config : Config) (hdepth : 1 ≤ config.maxDepth) {f : String}
    (hf : f ≠ "n") (n : Int64) :
    ∃ last, Settles (runProgram · [.nestedSum f, .callName f [.int n]]) (start config)
        (if n.toInt.toNat + 2 ≤ config.maxDepth then .ok (.integer (sumUpTo n.toInt.toNat))
          else .error (.depthExceeded config.maxDepth f), last) ∧
      last.stack.depth = 1 ∧ (∀ id, last.arena.isLive id = true ↔ id = last.program) ∧
      ∃ address, last.lookup f = .ok (.function address) ∧
        (last.heap.function address).tailCallOptimized = false := by
  have hparameters : Settles (Strategy.deferring.evalParameters · .empty [("n", none)])
      (start config) (.ok (.required ["n"]), start config) :=
    Strategy.settles_evalParameters_required (Strategy.settles_evalParameters_nil ..)
  obtain ⟨m, hm, hstack, -, hprogram⟩ := settles_runProgram (nestedBody f)
    [.callName f [.int n]] hparameters
  obtain ⟨arena, hdrive, hsame, -⟩ := settles_nested hf n.toInt.toNat rfl hm.toOffers
  obtain ⟨last, hcall, hlast, -⟩ := hm.settles_callName rfl hdrive (hm.withArena hsame)
  -- A limit of one is the least there is, and the stack has the limit of the configuration.
  have hlimit : m.stack.limit = config.maxDepth := by
    rw [hstack]
    exact max_eq_left hdepth
  have houtcome : (nestedOutcome f m.stack n.toInt.toNat).map Value.integer =
      if n.toInt.toNat + 2 ≤ config.maxDepth then .ok (.integer (sumUpTo n.toInt.toNat))
        else .error (.depthExceeded config.maxDepth f) := by
    rw [nestedOutcome, hm.depth_eq, hlimit]
    split_ifs <;> first | rfl | omega
  rw [houtcome] at hcall
  refine ⟨last, hprogram hcall, hlast.depth_eq, hlast.isLive_iff, 0, hlast.lookup_eq, ?_⟩
  rw [hlast.function_eq]
  rfl

/-- With room for five scopes the program sums the numbers up to three, but not up to four. -/
theorem nestedSum_three_not_four :
    1 ≤ (Config.mk 5).maxDepth ∧ "sum" ≠ "n" ∧
      (∃ last, Settles (runProgram · [.nestedSum "sum", .callName "sum" [.int 3]]) (start ⟨5⟩)
          (.ok (.integer 6), last) ∧
        last.stack.depth = 1 ∧ ∀ id, last.arena.isLive id = true ↔ id = last.program) ∧
      ∃ last, Settles (runProgram · [.nestedSum "sum", .callName "sum" [.int 4]]) (start ⟨5⟩)
          (.error (.depthExceeded 5 "sum"), last) ∧
        last.stack.depth = 1 ∧ ∀ id, last.arena.isLive id = true ↔ id = last.program := by
  have hdepth : 1 ≤ (Config.mk 5).maxDepth := by decide
  have hname : "sum" ≠ "n" := by decide
  have hthree : sumUpTo (3 : Int64).toInt.toNat = 6 := by decide
  obtain ⟨last, hlast, hclosed, hlive, -⟩ := nestedSum_exact ⟨5⟩ hdepth hname 3
  obtain ⟨failed, hfailed, hunwound, hleft, -⟩ := nestedSum_exact ⟨5⟩ hdepth hname 4
  rw [if_pos (by decide), hthree] at hlast
  rw [if_neg (by decide)] at hfailed
  exact ⟨hdepth, hname, ⟨last, hlast, hclosed, hlive⟩, failed, hfailed, hunwound, hleft⟩

/-! ## Calls that are handed back -/

/-- The body of the function that calls itself in tail position. -/
def tailBody (f : String) : Expr :=
  .conditional (.binary .greater (.name "n") (.int 0))
    (.callName f [.binary .subtract (.name "n") (.int 1), .binary .add (.name "acc") (.name "n")])
    (some (.name "acc"))

/-- The function that calls itself in tail position, as it is defined in a scope. -/
def tailFunction (f : String) (scope : RecordId) : Function :=
  definedFunction f (.ofList [("n", .required), ("acc", .value (.integer 0))]) scope (tailBody f)

theorem bind_tail (f : String) (scope : RecordId) (number sum : Value) :
    (tailFunction f scope).parameters.bind f ⟨[number, sum], []⟩ =
      .ok [("n", number), ("acc", sum)] :=
  rfl

theorem bind_tail_default (f : String) (scope : RecordId) (number : Value) :
    (tailFunction f scope).parameters.bind f ⟨[number], []⟩ =
      .ok [("n", number), ("acc", .integer 0)] :=
  rfl

section Tail

variable {m opened : Machine} {address : Address} {scope : RecordId} {f : String}
  {n acc : Int64} {k : Nat}

theorem settles_tailBody_zero
    (hcall : opened.InCall address (tailFunction f scope) scope
      [("n", .integer n), ("acc", .integer acc)])
    (hn : n.toInt.toNat = 0) :
    SettlesInPlace (Strategy.deferring.evalTail · (tailBody f)) opened 0
      (.ok (.value (.integer acc))) := by
  have hlookup := hcall.parameters "n" (.integer n) (.head _)
  have hacc := hcall.parameters "acc" (.integer acc) (.tail _ (.head _))
  refine settlesInPlace_of_settles hcall.tidy (settles_evalTail_positive hlookup ?_)
  rw [hn, if_neg (Nat.lt_irrefl 0)]
  exact Strategy.settles_evalTail_of_eval (fun steps => by rw [Strategy.evalTail] <;> simp)
    (Strategy.settles_name hacc)

/-- The rest of the sum is handed back as a call. -/
theorem settles_tailBody_succ
    (hcall : opened.InCall address (tailFunction f scope) scope
      [("n", .integer n), ("acc", .integer acc)])
    (hn : n.toInt.toNat = k + 1) :
    SettlesInPlace (Strategy.deferring.evalTail · (tailBody f)) opened 0
      (.ok (.deferred address ⟨[.integer (n - 1), .integer (acc + n)], []⟩)) := by
  have hlookup := hcall.parameters "n" (.integer n) (.head _)
  have hacc := hcall.parameters "acc" (.integer acc) (.tail _ (.head _))
  refine settlesInPlace_of_settles hcall.tidy (settles_evalTail_positive hlookup ?_)
  rw [hn, if_pos k.succ_pos]
  have hsum : Settles (Strategy.deferring.eval · (.binary .add (.name "acc") (.name "n"))) opened
      (.ok (.integer (acc + n)), opened) :=
    Strategy.settles_add (Strategy.settles_name hacc) (Strategy.settles_name hlookup)
  have harguments := Strategy.settles_evalList_cons (settles_pred hlookup)
    (Strategy.settles_evalList_cons hsum (Strategy.settles_evalList_nil ..))
  refine Strategy.settles_evalTail_callName hcall.itself harguments ?_
  exact Strategy.settles_tailCall_deferred (by rw [hcall.function_eq]; rfl)
    (by rw [hcall.function_eq, hcall.running])

/-- The scope of a call is closed before the call that it hands back is made. -/
theorem settles_invoke_tail (hn : f ≠ "n") (hacc : f ≠ "acc")
    (hm : m.Offers address (tailFunction f scope) scope) (hroom : m.stack.isFull = false)
    {arguments : Arguments} (hbound : (tailFunction f scope).parameters.bind f arguments =
      .ok [("n", .integer n), ("acc", .integer acc)])
    {outcome : Except RuntimeError Completion}
    (hbody : ∀ opened : Machine, opened.InCall address (tailFunction f scope) scope
        [("n", .integer n), ("acc", .integer acc)] →
      SettlesInPlace (Strategy.deferring.evalTail · (tailBody f)) opened 0 outcome) :
    SettlesInPlace (Strategy.deferring.invoke · address arguments) m 1 outcome := by
  refine hm.settles_invoke rfl hbound ?_ ?_ hroom fun opened hcall _ _ => hbody opened hcall
  · show ["n", "acc"].Nodup
    decide
  · exact fun hmem => (List.mem_pair.1 hmem).elim hn hacc

/-- For every number there is one record; the function is marked if there was a call to hand
back. -/
theorem settles_tail (hfn : f ≠ "n") (hfacc : f ≠ "acc") (k : Nat) :
    ∀ {m : Machine} {n acc : Int64} {arguments : Arguments} (repeated : Bool),
    n.toInt.toNat = k → m.Offers address (tailFunction f scope) scope →
    m.stack.isFull = false →
    (tailFunction f scope).parameters.bind f arguments =
      .ok [("n", .integer n), ("acc", .integer acc)] →
    ∃ arena, Settles (Strategy.deferring.drive · repeated address arguments) m
        (.ok (.integer (acc + sumUpTo k)),
          { m with arena }.markIf (repeated || decide (0 < k)) address) ∧
      m.arena.SameRecords arena ∧ arena.allocated = m.arena.allocated + (k + 1) := by
  induction k with
  | zero =>
      intro m n acc arguments repeated hn hm hroom hbound
      obtain ⟨arena, hinvoke, harena⟩ := settles_invoke_tail hfn hfacc hm hroom hbound
        fun opened hcall => settles_tailBody_zero hcall hn
      refine ⟨arena, ?_, harena⟩
      have hsum : acc + sumUpTo 0 = acc := Int64.add_zero acc
      rw [hsum, decide_eq_false (Nat.lt_irrefl 0), Bool.or_false]
      exact Strategy.settles_drive_value hinvoke
  | succ k ih =>
      intro m n acc arguments repeated hn hm hroom hbound
      obtain ⟨arena, hinvoke, hsame, hmade⟩ := settles_invoke_tail hfn hfacc hm hroom hbound
        fun opened hcall => settles_tailBody_succ hcall hn
      -- The call that is handed back is made where the records are as before, one number less is
      -- left to sum.
      obtain ⟨later, hnext, hlater, hmore⟩ := ih true (toNat_pred hn) (hm.withArena hsame) hroom
        (bind_tail f scope (.integer (n - 1)) (.integer (acc + n)))
      have hcount : later.allocated = m.arena.allocated + (k + 1 + 1) :=
        calc later.allocated = arena.allocated + (k + 1) := hmore
          _ = m.arena.allocated + (k + 1 + 1) := by omega
      refine ⟨later, ?_, hsame.trans hlater, hcount⟩
      have hsum : acc + sumUpTo (k + 1) = acc + n + sumUpTo k := by
        rw [sumUpTo_succ, ← eq_ofNat_of_toInt hn, Int64.add_assoc]
      rw [hsum, decide_eq_true k.succ_pos, Bool.or_true]
      exact Strategy.settles_drive_deferred hinvoke hnext

end Tail

/-- **Calls that are handed back never overflow.**  With room for one scope besides its own, the
program comes to the sum of any number.  It makes one record for each call and leaves none of them,
and it marks the function if there is anything to sum. -/
theorem tailSum_exact (config : Config) (hdepth : 2 ≤ config.maxDepth) {f : String}
    (hfn : f ≠ "n") (hfacc : f ≠ "acc") (n : Int64) :
    ∃ last, Settles (runProgram · [.tailSum f, .callName f [.int n]]) (start config)
        (.ok (.integer (sumUpTo n.toInt.toNat)), last) ∧
      last.stack.depth = 1 ∧ (∀ id, last.arena.isLive id = true ↔ id = last.program) ∧
      last.arena.allocated = (start config).arena.allocated + (n.toInt.toNat + 1) ∧
      ∃ address, last.lookup f = .ok (.function address) ∧
        (last.heap.function address).tailCallOptimized = decide (0 < n.toInt) := by
  have hparameters : Settles (Strategy.deferring.evalParameters · .empty
      [("n", none), ("acc", some (.int 0))]) (start config)
      (.ok (.ofList [("n", .required), ("acc", .value (.integer 0))]), start config) :=
    Strategy.settles_evalParameters_required (Strategy.settles_evalParameters_default
      (Strategy.settles_literal ..) (Strategy.settles_evalParameters_nil ..))
  obtain ⟨m, hm, hstack, hmade, hprogram⟩ := settles_runProgram (tailBody f)
    [.callName f [.int n]] hparameters
  have hroom : m.stack.isFull = false := by
    have hlimit : m.stack.limit = max config.maxDepth 1 := by rw [hstack]; rfl
    rw [CallStack.isFull, hm.depth_eq, hlimit, decide_eq_false_iff_not]
    omega
  obtain ⟨arena, hdrive, hsame, hmore⟩ := settles_tail hfn hfacc n.toInt.toNat false rfl
    hm.toOffers hroom (bind_tail_default f m.program (.integer n))
  have hafter := (hm.withArena hsame).markIf (false || decide (0 < n.toInt.toNat))
  rw [Int64.zero_add] at hdrive
  obtain ⟨last, hcall, hlast, hlater⟩ := hm.settles_callName rfl hdrive hafter
  have hallocated : last.arena.allocated =
      (start config).arena.allocated + (n.toInt.toNat + 1) :=
    calc last.arena.allocated = arena.allocated := hlater
      _ = m.arena.allocated + (n.toInt.toNat + 1) := hmore
      _ = (start config).arena.allocated + (n.toInt.toNat + 1) := by rw [hmade]
  refine ⟨last, hprogram hcall, hlast.depth_eq, hlast.isLive_iff, hallocated, 0,
    hlast.lookup_eq, ?_⟩
  rw [hlast.function_eq]
  show (false || (false || decide (0 < n.toInt.toNat))) = decide (0 < n.toInt)
  rw [Bool.false_or, Bool.false_or, decide_eq_decide, Int.lt_toNat, Nat.cast_zero]

/-- With room for two scopes the program sums the numbers up to fifty thousand. -/
theorem tailSum_fifty_thousand :
    2 ≤ (Config.mk 2).maxDepth ∧ "sum" ≠ "n" ∧ "sum" ≠ "acc" ∧
      ∃ last, Settles (runProgram · [.tailSum "sum", .callName "sum" [.int 50000]]) (start ⟨2⟩)
          (.ok (.integer 1250025000), last) ∧
        last.stack.depth = 1 ∧ (∀ id, last.arena.isLive id = true ↔ id = last.program) ∧
        last.arena.allocated = 50002 ∧
        ∃ address, last.lookup "sum" = .ok (.function address) ∧
          (last.heap.function address).tailCallOptimized = true := by
  have hdepth : 2 ≤ (Config.mk 2).maxDepth := by decide
  have hn : "sum" ≠ "n" := by decide
  have hacc : "sum" ≠ "acc" := by decide
  have hsum : sumUpTo (50000 : Int64).toInt.toNat = 1250025000 := by decide
  obtain ⟨last, hlast, hclosed, hlive, hallocated, hmarked⟩ :=
    tailSum_exact ⟨2⟩ hdepth hn hacc 50000
  rw [hsum] at hlast
  exact ⟨hdepth, hn, hacc, last, hlast, hclosed, hlive, hallocated, hmarked⟩

end ScriptCore
