import Mathlib.Tactic.Common
import ScriptCore.CommandLine

/-!
# Flags among the arguments

A flag and the value behind it may stand anywhere among the arguments.  Two things are said of an
argument list without a word about how flags are taken out: `others` are the arguments that are
neither flags nor values of flags, in their order, and `valuesOf` are the values of one flag.  If
behind every flag stands a value that is no flag (`Valued`), then taking the flags out gives just
these (`extractOptions_eq`), so that it does not matter where they stood.

Such an argument list is a row of other arguments and of pairs of a flag and a value (`Arranged`),
and everything is proved along this row.

Taking out one flag fails on some argument lists that are not of this kind.  Read from the left, a
flag that is not itself the value of the flag before it opens a pair (`Opens`); the failure is that
of a pair that has no value because the arguments end (`extractFlag_eq_none_iff`).
-/

namespace ScriptCore.CommandLine

/-! ## Flags and values by position -/

/-- The flags that take a value. -/
def valueFlags : List String := [configFlag, depthFlag]

/-- At a position stands a flag that is not the value of the flag before it. -/
def Opens (flag : String) (arguments : List String) : Nat → Prop
  | 0 => arguments[0]? = some flag
  | position + 1 => arguments[position + 1]? = some flag ∧ ¬ Opens flag arguments position

/-- Behind each of the flags stands a value that is none of them. -/
def Valued (flags arguments : List String) : Prop :=
  ∀ (position : Nat) flag, arguments[position]? = some flag → flag ∈ flags →
    ∃ value, arguments[position + 1]? = some value ∧ value ∉ flags

/-- Each argument with the one before it; before the first one stands the given one. -/
def withPrevious (before : Option String) (arguments : List String) :
    List (Option String × String) :=
  (before :: arguments.map some).zip arguments

/-- The arguments that are none of the flags and do not stand behind one. -/
def others (flags arguments : List String) : List String :=
  ((withPrevious none arguments).filter fun (before, argument) =>
    argument ∉ flags ∧ before.all (· ∉ flags)).map (·.2)

/-- The arguments that stand behind a flag. -/
def valuesOf (flag : String) (arguments : List String) : List String :=
  ((withPrevious none arguments).filter fun (before, _) => before = some flag).map (·.2)

/-! ## A flag without a value -/

variable {flag argument value : String} {flags arguments rest : List String}

theorem opens_succ_iff {position : Nat} : Opens flag arguments (position + 1) ↔
    arguments[position + 1]? = some flag ∧ ¬ Opens flag arguments position :=
  Iff.rfl

/-- An argument that is not the flag has no part in a pair that it does not stand behind. -/
theorem opens_cons_succ_iff (hother : argument ≠ flag) (position : Nat) :
    Opens flag (argument :: rest) (position + 1) ↔ Opens flag rest position := by
  induction position with
  | zero => simp [Opens, hother]
  | succ position ih =>
      calc Opens flag (argument :: rest) (position + 1 + 1)
          ↔ (argument :: rest)[position + 1 + 1]? = some flag ∧
            ¬ Opens flag (argument :: rest) (position + 1) := opens_succ_iff
        _ ↔ rest[position + 1]? = some flag ∧ ¬ Opens flag rest position := by
            rw [ih, List.getElem?_cons_succ]
        _ ↔ Opens flag rest (position + 1) := opens_succ_iff.symm

/-- A flag and its value have no part in the pairs behind them, even if the value is the flag. -/
theorem opens_pair_add_two_iff (position : Nat) :
    Opens flag (flag :: value :: rest) (position + 2) ↔ Opens flag rest position := by
  induction position with
  | zero => simp [Opens]
  | succ position ih =>
      calc Opens flag (flag :: value :: rest) (position + 2 + 1)
          ↔ (flag :: value :: rest)[position + 2 + 1]? = some flag ∧
            ¬ Opens flag (flag :: value :: rest) (position + 2) := opens_succ_iff
        _ ↔ rest[position + 1]? = some flag ∧ ¬ Opens flag rest position := by
            rw [ih, List.getElem?_cons_succ, List.getElem?_cons_succ]
        _ ↔ Opens flag rest (position + 1) := opens_succ_iff.symm

/-- Taking out a flag fails if a pair has no value because the arguments end, and only then. -/
theorem extractFlag_eq_none_iff : extractFlag flag arguments = none ↔
    ∃ position, Opens flag arguments position ∧ position + 1 = arguments.length := by
  fun_induction extractFlag flag arguments with
  | case1 => simp
  | case2 => exact iff_of_true rfl ⟨0, rfl, rfl⟩
  | case3 argument hother => simp [Opens, hother]
  | case4 value rest ih =>
      rw [Option.map_eq_none_iff, ih]
      constructor
      · rintro ⟨position, hopens, hlast⟩
        refine ⟨position + 2, (opens_pair_add_two_iff position).2 hopens, ?_⟩
        simp only [List.length_cons]
        omega
      · rintro ⟨position, hopens, hlast⟩
        simp only [List.length_cons] at hlast
        -- The flag in front has its value, and the value opens no pair.
        match position with
        | 0 => omega
        | 1 => exact absurd (show Opens flag (flag :: value :: rest) 0 from rfl) hopens.2
        | position + 2 =>
            exact ⟨position, (opens_pair_add_two_iff position).1 hopens, by omega⟩
  | case5 argument value rest hother ih =>
      rw [Option.map_eq_none_iff, ih]
      constructor
      · rintro ⟨position, hopens, hlast⟩
        exact ⟨position + 1, (opens_cons_succ_iff hother position).2 hopens, by simpa using hlast⟩
      · rintro ⟨position, hopens, hlast⟩
        match position with
        | 0 => exact absurd (Option.some.inj hopens) hother
        | position + 1 =>
            exact ⟨position, (opens_cons_succ_iff hother position).1 hopens, by simpa using hlast⟩

/-! ## Rows of arguments and pairs -/

/-- The arguments are a row of arguments that are no flags and of flags with their values. -/
inductive Arranged (flags : List String) : List String → Prop
  | nil : Arranged flags []
  | other {argument : String} {rest : List String} (hother : argument ∉ flags)
      (hrest : Arranged flags rest) : Arranged flags (argument :: rest)
  | pair {flag value : String} {rest : List String} (hflag : flag ∈ flags) (hvalue : value ∉ flags)
      (hrest : Arranged flags rest) : Arranged flags (flag :: value :: rest)

theorem Valued.tail (hvalued : Valued flags (argument :: rest)) : Valued flags rest :=
  fun position _ hplace hflag => hvalued (position + 1) _ hplace hflag

theorem Valued.arranged : ∀ {arguments : List String},
    Valued flags arguments → Arranged flags arguments
  | [], _ => .nil
  | argument :: rest, hvalued => by
      by_cases hflag : argument ∈ flags
      · obtain ⟨value, hplace, hvalue⟩ := hvalued 0 argument rfl hflag
        match rest with
        | [] => nomatch hplace
        | _ :: rest =>
            obtain rfl := Option.some.inj hplace
            exact .pair hflag hvalue hvalued.tail.tail.arranged
      · exact .other hflag hvalued.tail.arranged

theorem Arranged.valued (harranged : Arranged flags arguments) : Valued flags arguments := by
  induction harranged with
  | nil => exact fun _ _ hplace => nomatch hplace
  | other hother _ ih =>
      intro position flag hplace hflag
      match position with
      | 0 => exact absurd (Option.some.inj hplace ▸ hflag) hother
      | position + 1 => exact ih position flag hplace hflag
  | pair _ hvalue _ ih =>
      intro position flag hplace hflag
      match position with
      | 0 => exact ⟨_, rfl, hvalue⟩
      | 1 => exact absurd (Option.some.inj hplace ▸ hflag) hvalue
      | position + 2 => exact ih position flag hplace hflag

/-! ### Other arguments and values along a row -/

/-- What stands behind an argument that is no flag is kept as it would be at the start. -/
theorem others_eq_of_not_mem (hother : argument ∉ flags) (rest : List String) :
    ((withPrevious (some argument) rest).filter fun (before, argument) =>
      argument ∉ flags ∧ before.all (· ∉ flags)).map (·.2) = others flags rest := by
  cases rest with
  | nil => rfl
  | cons next rest =>
      by_cases hnext : next ∈ flags <;> simp [others, withPrevious, hnext, hother]

theorem others_cons (hother : argument ∉ flags) (rest : List String) :
    others flags (argument :: rest) = argument :: others flags rest := by
  rw [← others_eq_of_not_mem hother rest]
  simp [others, withPrevious, hother]

theorem others_pair (hflag : flag ∈ flags) (hvalue : value ∉ flags) (rest : List String) :
    others flags (flag :: value :: rest) = others flags rest := by
  rw [← others_eq_of_not_mem hvalue rest]
  simp [others, withPrevious, hflag]

theorem valuesOf_cons (hother : argument ≠ flag) (rest : List String) :
    valuesOf flag (argument :: rest) = valuesOf flag rest := by
  cases rest with
  | nil => simp [valuesOf, withPrevious]
  | cons next rest => simp [valuesOf, withPrevious, hother]

theorem valuesOf_pair (hvalue : value ≠ flag) (rest : List String) :
    valuesOf flag (flag :: value :: rest) = value :: valuesOf flag rest := by
  rw [← valuesOf_cons hvalue rest]
  simp [valuesOf, withPrevious]

/-! ## Taking flags out of a row -/

theorem extractFlag_cons (hother : argument ≠ flag) (rest : List String) :
    extractFlag flag (argument :: rest) =
      (extractFlag flag rest).map fun (found, kept) => (found, argument :: kept) := by
  cases rest <;> simp [extractFlag, hother]

theorem extractFlag_pair (flag value : String) (rest : List String) :
    extractFlag flag (flag :: value :: rest) =
      (extractFlag flag rest).map fun (later, kept) => (later.or (some value), kept) := by
  simp [extractFlag]

/-- As far as one flag is concerned, the pairs of the others are arguments like any other. -/
theorem Arranged.single (harranged : Arranged flags arguments) (hflag : flag ∈ flags) :
    Arranged [flag] arguments := by
  induction harranged with
  | nil => exact .nil
  | other hother _ ih =>
      refine .other ?_ ih
      intro hsame
      exact hother (List.mem_singleton.1 hsame ▸ hflag)
  | @pair first value rest _ hvalue _ ih =>
      have hplain : value ∉ [flag] := fun hsame => hvalue (List.mem_singleton.1 hsame ▸ hflag)
      by_cases hsame : first = flag
      · exact .pair (List.mem_singleton.2 hsame) hplain ih
      · exact .other (by simpa using hsame) (.other hplain ih)

/-- Taking out a flag gives its last value and leaves the other arguments in order. -/
theorem extractFlag_eq (harranged : Arranged [flag] arguments) :
    extractFlag flag arguments =
      some ((valuesOf flag arguments).getLast?, others [flag] arguments) := by
  induction harranged with
  | nil => rfl
  | @other argument rest hother _ ih =>
      have hne : argument ≠ flag := by simpa using hother
      rw [extractFlag_cons hne, ih, others_cons hother, valuesOf_cons hne]
      rfl
  | @pair first value rest hfirst hvalue _ ih =>
      obtain rfl := List.mem_singleton.1 hfirst
      have hne : value ≠ first := by simpa using hvalue
      rw [extractFlag_pair, ih, others_pair hfirst hvalue, valuesOf_pair hne, List.getLast?_cons]
      cases (valuesOf first rest).getLast? <;> rfl

variable {first second : String}

/-- What is left when one flag was taken out of a row is a row as far as the other one is concerned,
with the values it had before. -/
theorem Arranged.others_first (harranged : Arranged [first, second] arguments)
    (hne : first ≠ second) :
    Arranged [second] (others [first] arguments) ∧
      valuesOf second (others [first] arguments) = valuesOf second arguments ∧
      others [second] (others [first] arguments) = others [first, second] arguments := by
  induction harranged with
  | nil => exact ⟨.nil, rfl, rfl⟩
  | @other argument rest hother _ ih =>
      obtain ⟨hrow, hvalues, hothers⟩ := ih
      obtain ⟨hfirst, hsecond⟩ : argument ∉ [first] ∧ argument ∉ [second] := by simpa using hother
      have hplain : argument ≠ second := by simpa using hsecond
      rw [others_cons hfirst, others_cons hother, others_cons hsecond, valuesOf_cons hplain,
        valuesOf_cons hplain, hothers]
      exact ⟨.other hsecond hrow, hvalues, rfl⟩
  | @pair flag value rest hflag hvalue _ ih =>
      obtain ⟨hrow, hvalues, hothers⟩ := ih
      obtain ⟨hfirst, hsecond⟩ : value ∉ [first] ∧ value ∉ [second] := by simpa using hvalue
      have hplain : value ≠ second := by simpa using hsecond
      have hwhich : flag = first ∨ flag = second := by simpa using hflag
      rw [others_pair hflag hvalue]
      -- A pair of the first flag is taken out; one of the second stays and is a pair there, too.
      rcases hwhich with rfl | rfl
      · rw [others_pair List.mem_cons_self hfirst, valuesOf_cons hne, valuesOf_cons hplain]
        exact ⟨hrow, hvalues, hothers⟩
      · have hkept : flag ∉ [first] := by simpa using hne.symm
        rw [others_cons hkept, others_cons hfirst, others_pair List.mem_cons_self hsecond,
          valuesOf_pair hplain, valuesOf_pair hplain, hvalues]
        exact ⟨.pair List.mem_cons_self hsecond hrow, rfl, hothers⟩

/-! ## Taking out both flags -/

/-- Both flags are taken out of a row with their last values, and the other arguments are left. -/
theorem Arranged.extractOptions_eq (harranged : Arranged valueFlags arguments) :
    extractOptions arguments = .ok
      { configPath := (valuesOf configFlag arguments).getLast?
        maxDepth := (valuesOf depthFlag arguments).getLast?
        arguments := others valueFlags arguments } := by
  have hconfig := extractFlag_eq (harranged.single List.mem_cons_self)
  obtain ⟨hrow, hvalues, hothers⟩ := harranged.others_first (by decide)
  have hdepth := extractFlag_eq hrow
  rw [hvalues, hothers] at hdepth
  simp only [extractOptions, hconfig, hdepth]
  rfl

/-- **Flags may stand anywhere among the arguments.**  If behind each of them stands a value that is
no flag, then taking them out gives the last value of each and leaves the other arguments in order,
so that argument lists with the same other arguments and the same last values give the same.  On any
argument list taking out a flag fails just if a flag that opens a pair is the last argument. -/
theorem extract_anywhere (hvalued : Valued valueFlags arguments) :
    extractOptions arguments = .ok
      { configPath := (valuesOf configFlag arguments).getLast?
        maxDepth := (valuesOf depthFlag arguments).getLast?
        arguments := others valueFlags arguments } ∧
    (∀ arguments', Valued valueFlags arguments' →
      others valueFlags arguments' = others valueFlags arguments →
      (∀ flag ∈ valueFlags,
        (valuesOf flag arguments').getLast? = (valuesOf flag arguments).getLast?) →
      extractOptions arguments' = extractOptions arguments) ∧
    ∀ flag any, extractFlag flag any = none ↔
      ∃ position, Opens flag any position ∧ position + 1 = any.length := by
  have hoptions := hvalued.arranged.extractOptions_eq
  refine ⟨hoptions, fun arguments' hvalued' hothers hlast => ?_,
    fun flag any => extractFlag_eq_none_iff⟩
  rw [hoptions, hvalued'.arranged.extractOptions_eq, hothers, hlast configFlag (by decide),
    hlast depthFlag (by decide)]

/-- Flags in front, behind each other, repeated and at the end, and each of them once behind all
other arguments; and a flag that is the value of itself, once too often. -/
theorem extract_anywhere_scattered :
    let scattered := ["--max-depth", "5", "tail-sum", "--config", "a", "--config", "b", "10",
      "--max-depth", "7"]
    let gathered := ["tail-sum", "10", "--config", "b", "--max-depth", "7"]
    Valued valueFlags scattered ∧
    extractOptions scattered = .ok
      { configPath := some "b", maxDepth := some "7", arguments := ["tail-sum", "10"] } ∧
    extractOptions gathered = extractOptions scattered ∧
    extractFlag "--config" ["--config", "--config", "--config"] = none := by
  intro scattered gathered
  have hscattered : Arranged valueFlags scattered :=
    .pair (by decide) (by decide) (.other (by decide) (.pair (by decide) (by decide)
      (.pair (by decide) (by decide) (.other (by decide)
        (.pair (by decide) (by decide) .nil)))))
  have hgathered : Arranged valueFlags gathered :=
    .other (by decide) (.other (by decide) (.pair (by decide) (by decide)
      (.pair (by decide) (by decide) .nil)))
  obtain ⟨hoptions, hmoved, hfails⟩ := extract_anywhere hscattered.valued
  refine ⟨hscattered.valued, hoptions, hmoved gathered hgathered.valued (by decide) (by decide),
    (hfails _ _).2 ⟨2, ?_, rfl⟩⟩
  simp [Opens]

end ScriptCore.CommandLine
