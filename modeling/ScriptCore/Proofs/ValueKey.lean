import ScriptCore.Proofs.Decimal.Conversion
import ScriptCore.Proofs.FloatKey
import ScriptCore.Proofs.Heap.Equality
import ScriptCore.Proofs.Instant

/-!
# Keys and equality

A dict takes two values for one if they have the same key, and the language if they are equal.  This
file says how far the two agree.

`Merged` lists the pairs of values that have one key: such pairs have it (`keyText?_of_merged`), and
no others (`merged_of_keyText?`).  Against equality, two things are out of line.

* **Equal keys of values that differ.**  An error is keyed by its label and its message with a colon
  between them, and either may hold a colon too.  Apart from such pairs (`Confused`), and from NaN,
  values of one key are equal: `key_eq_and_not_equals_iff`.
* **Equal values with different keys.**  An integer equals the float to which it is rounded, and
  they have one key only if nothing is lost by it and the integer is not the least one (`Rounded`):
  `key_eq_iff_of_equals`.
-/

namespace ScriptCore

open Decimal

/-! ## Texts with a separator -/

/-- Two texts with a separator are the same if their parts are, or if one of the separators is in a
part of the other. -/
theorem append_cons_eq_append_cons_iff {α : Type} {separator : α}
    {before after before' after' : List α} :
    before ++ separator :: after = before' ++ separator :: after' ↔
      before = before' ∧ after = after' ∨
      (∃ middle, before' = before ++ separator :: middle ∧
        after = middle ++ separator :: after') ∨
      ∃ middle, before = before' ++ separator :: middle ∧
        after' = middle ++ separator :: after := by
  rw [List.append_eq_append_iff]
  constructor
  · -- One front is the beginning of the other; what is between them is empty or starts at a
    -- separator.
    rintro (⟨middle, rfl, htail⟩ | ⟨middle, rfl, htail⟩)
    · cases middle with
      | nil => simp_all
      | cons first middle =>
          obtain ⟨rfl, rfl⟩ := List.cons.inj htail
          exact .inr (.inl ⟨middle, rfl, rfl⟩)
    · cases middle with
      | nil => simp_all
      | cons first middle =>
          obtain ⟨rfl, rfl⟩ := List.cons.inj htail
          exact .inr (.inr ⟨middle, rfl, rfl⟩)
  · rintro (⟨rfl, rfl⟩ | ⟨middle, rfl, rfl⟩ | ⟨middle, rfl, rfl⟩)
    · exact .inl ⟨[], by simp⟩
    · exact .inl ⟨separator :: middle, by simp⟩
    · exact .inr ⟨separator :: middle, by simp⟩

/-- What is behind the last separator of two texts can be told from what is before it. -/
theorem append_cons_inj_of_notMem_after {α : Type} {separator : α}
    {before after before' after' : List α} (hafter : separator ∉ after)
    (hafter' : separator ∉ after')
    (heq : before ++ separator :: after = before' ++ separator :: after') :
    before = before' ∧ after = after' := by
  rcases append_cons_eq_append_cons_iff.1 heq with hsame | ⟨middle, -, rfl⟩ | ⟨middle, -, rfl⟩
  · exact hsame
  · simp at hafter
  · simp at hafter'

/-! ## Addresses -/

theorem digitChar_inj : ∀ m < 16, ∀ n < 16, Nat.digitChar m = Nat.digitChar n → m = n := by
  decide

theorem digitChar_ne_hash : ∀ n < 16, Nat.digitChar n ≠ '#' := by
  decide

/-- A number has the same last digit and the same digits in front of it as another only if it is the
other. -/
theorem toDigits_sixteen_inj {m n : ℕ} (heq : Nat.toDigits 16 m = Nat.toDigits 16 n) : m = n := by
  induction m using Nat.strong_induction_on generalizing n with
  | _ m ih =>
    have hlength : ∀ k, 0 < (Nat.toDigits 16 k).length := fun k => Nat.length_toDigits_pos
    rcases lt_or_ge m 16 with hm | hm <;> rcases lt_or_ge n 16 with hn | hn
    · rw [Nat.toDigits_of_lt_base hm, Nat.toDigits_of_lt_base hn] at heq
      exact digitChar_inj m hm n hn (List.singleton_inj.1 heq)
    · -- A single digit is shorter than two or more.
      rw [Nat.toDigits_of_lt_base hm, Nat.toDigits_of_base_le (by decide) hn] at heq
      have hlengths := congrArg List.length heq
      have := hlength (n / 16)
      simp only [List.length_append, List.length_singleton] at hlengths
      omega
    · rw [Nat.toDigits_of_base_le (by decide) hm, Nat.toDigits_of_lt_base hn] at heq
      have hlengths := congrArg List.length heq
      have := hlength (m / 16)
      simp only [List.length_append, List.length_singleton] at hlengths
      omega
    · rw [Nat.toDigits_of_base_le (by decide) hm, Nat.toDigits_of_base_le (by decide) hn] at heq
      obtain ⟨hfront, hlast⟩ := List.append_inj' heq rfl
      have hquotient := ih (m / 16) (by omega) hfront
      have hrest := digitChar_inj _ (Nat.mod_lt m (by decide)) _ (Nat.mod_lt n (by decide))
        (List.singleton_inj.1 hlast)
      omega

theorem notMem_toDigits_sixteen (n : ℕ) : '#' ∉ Nat.toDigits 16 n := by
  induction n using Nat.strong_induction_on with
  | _ n ih =>
    rcases lt_or_ge n 16 with hn | hn
    · rw [Nat.toDigits_of_lt_base hn, List.mem_singleton]
      exact (digitChar_ne_hash n hn).symm
    · rw [Nat.toDigits_of_base_le (by decide) hn, List.mem_append, List.mem_singleton, not_or]
      exact ⟨ih (n / 16) (by omega), (digitChar_ne_hash _ (Nat.mod_lt n (by decide))).symm⟩

theorem toList_addressText (address : Address) :
    (addressText address).toList = '0' :: 'x' :: Nat.toDigits 16 address := by
  simp [addressText]

/-- A name and an address behind it are told from their text. -/
theorem eq_of_identity_eq {name name' : String} {address address' : Address}
    (heq : name ++ "#" ++ addressText address = name' ++ "#" ++ addressText address') :
    address = address' := by
  have hno : ∀ address : Address, '#' ∉ (addressText address).toList := by
    intro address
    rw [toList_addressText]
    simpa using notMem_toDigits_sixteen address
  have hlists := congrArg String.toList heq
  rw [String.append_assoc, String.append_assoc, String.toList_append, String.toList_append,
    String.toList_append, String.toList_append] at hlists
  obtain ⟨-, haddresses⟩ := append_cons_inj_of_notMem_after (hno address) (hno address') hlists
  rw [toList_addressText, toList_addressText] at haddresses
  exact toDigits_sixteen_inj (List.cons.inj (List.cons.inj haddresses).2).2

/-! ## Labels and messages -/

theorem colon_eq_iff {label message label' message' : String} :
    label ++ ":" ++ message = label' ++ ":" ++ message' ↔
      label = label' ∧ message = message' ∨
      (∃ middle, label' = label ++ ":" ++ middle ∧ message = middle ++ ":" ++ message') ∨
      ∃ middle, label = label' ++ ":" ++ middle ∧ message' = middle ++ ":" ++ message := by
  have hlist : ∀ before after : String,
      (before ++ ":" ++ after).toList = before.toList ++ ':' :: after.toList := by
    intro before after
    rw [String.append_assoc, String.toList_append, String.toList_append]
    rfl
  -- A list of characters between the colons is a text.
  have hexists : ∀ p : List Char → Prop,
      (∃ middle : String, p middle.toList) ↔ ∃ middle, p middle :=
    fun p => ⟨fun ⟨middle, hp⟩ => ⟨_, hp⟩, fun ⟨middle, hp⟩ =>
      ⟨String.ofList middle, by rwa [String.toList_ofList]⟩⟩
  simp only [← String.toList_inj, hlist, append_cons_eq_append_cons_iff]
  rw [hexists fun middle => label'.toList = label.toList ++ ':' :: middle ∧
    message.toList = middle ++ ':' :: message'.toList,
    hexists fun middle => label.toList = label'.toList ++ ':' :: middle ∧
    message'.toList = middle ++ ':' :: message.toList]

/-! ## Values of one key -/

/-- Two errors of which one has a colon in its label and the other in its message, so that label,
colon and message come to the same text. -/
def Confused (a b : Value) : Prop :=
  ∃ label middle message,
    a = .error label (middle ++ ":" ++ message) ∧ b = .error (label ++ ":" ++ middle) message ∨
    b = .error label (middle ++ ":" ++ message) ∧ a = .error (label ++ ":" ++ middle) message

/-- The pairs of values that have one key. -/
inductive Merged : Value → Value → Prop
  | null : Merged .null .null
  | boolean (truth : Bool) : Merged (.boolean truth) (.boolean truth)
  | integer (number : Int64) : Merged (.integer number) (.integer number)
  | float {x y : Float} (hsame : (x == y) = true ∨ x = Float.nan ∧ y = Float.nan) :
      Merged (.float x) (.float y)
  | integerFloat {number : Int64} {x : Float} (hexact : smallWhole? x = some number.toInt) :
      Merged (.integer number) (.float x)
  | floatInteger {number : Int64} {x : Float} (hexact : smallWhole? x = some number.toInt) :
      Merged (.float x) (.integer number)
  | string (text : String) : Merged (.string text) (.string text)
  | datetime (instant : Instant) : Merged (.datetime instant) (.datetime instant)
  | error (label message : String) : Merged (.error label message) (.error label message)
  | module (address : Address) : Merged (.module address) (.module address)
  | function (address : Address) : Merged (.function address) (.function address)
  | confused {a b : Value} (hconfused : Confused a b) : Merged a b

/-- An integer and a float of which the float is not exactly the integer, or the integer is the
least one. -/
def Rounded (a b : Value) : Prop :=
  ∃ (number : Int64) (x : Float),
    (a = .integer number ∧ b = .float x ∨ a = .float x ∧ b = .integer number) ∧
    (value? x ≠ some (number.toInt : ℚ) ∨ number = Int64.minValue)

namespace Heap

variable {h : Heap} {a b : Value} {text text' : String}

/-- The first two characters of the key of a value. -/
def mark : Value → List Char
  | .integer _ | .float _ => ['n', ':']
  | .string _ => ['s', ':']
  | .boolean _ => ['b', ':']
  | .null => ['n', 'u']
  | .datetime _ => ['d', ':']
  | .error .. => ['e', ':']
  | .module _ => ['m', ':']
  | .function _ => ['f', ':']
  | .list _ | .dict _ | .struct _ => []

theorem take_toList_keyText? (ha : h.keyText? a = some text) :
    text.toList.take 2 = mark a := by
  cases a <;> simp only [keyText?, Option.some.injEq, reduceCtorEq] at ha <;> subst ha <;>
    simp [mark]

theorem natAbs_toInt_le (number : Int64) : number.toInt.natAbs ≤ 2 ^ 63 := by
  have hle := number.le_toInt
  have hlt := number.toInt_lt
  omega

theorem keyText?_of_merged (hmerged : Merged a b) : h.keyText? a = h.keyText? b := by
  cases hmerged with
  | float hsame => simp only [keyText?, floatKeyText_eq_iff.2 hsame]
  | integerFloat hexact => simp only [keyText?, floatKeyText_of_smallWhole? hexact]
  | floatInteger hexact => simp only [keyText?, floatKeyText_of_smallWhole? hexact]
  | confused hconfused =>
      obtain ⟨label, middle, message, ⟨rfl, rfl⟩ | ⟨rfl, rfl⟩⟩ := hconfused <;>
        simp only [keyText?, String.append_assoc]
  | _ => rfl

theorem merged_of_keyText? (ha : h.keyText? a = some text) (hb : h.keyText? b = some text)
    (hproper : ∀ instant, a = .datetime instant ∨ b = .datetime instant → instant.Proper) :
    Merged a b := by
  have hmark : mark a = mark b := (take_toList_keyText? ha).symm.trans (take_toList_keyText? hb)
  have htext : h.keyText? a = h.keyText? b := ha.trans hb.symm
  -- Only values of one mark are left: those of one type, and an integer with a float.
  cases a <;> cases b <;> simp only [mark, reduceCtorEq, List.cons.injEq, Char.reduceEq,
    and_false, and_true] at hmark <;>
    simp only [keyText?, Option.some.injEq, reduceCtorEq, String.append_right_inj] at ha htext
  case null.null => exact .null
  case boolean.boolean truth truth' =>
    obtain rfl : truth = truth' := by cases truth <;> cases truth' <;> simp at htext ⊢
    exact .boolean truth
  case integer.integer number number' =>
    obtain rfl := Int64.toInt_inj.1 (Int.repr_inj.1 htext)
    exact .integer number
  case integer.float number x =>
    exact .integerFloat (smallWhole?_of_floatKeyText (natAbs_toInt_le number) htext.symm)
  case float.integer x number =>
    exact .floatInteger (smallWhole?_of_floatKeyText (natAbs_toInt_le number) htext)
  case float.float x y => exact .float (floatKeyText_eq_iff.1 htext)
  case string.string text text' =>
    obtain rfl := htext
    exact .string text
  case datetime.datetime instant instant' =>
    obtain rfl := Instant.eq_of_text_eq (hproper instant (.inl rfl)) (hproper instant' (.inr rfl))
      htext
    exact .datetime instant
  case error.error label message label' message' =>
    rw [String.append_assoc, String.append_assoc, String.append_assoc, String.append_assoc,
      String.append_right_inj, ← String.append_assoc, ← String.append_assoc, colon_eq_iff] at htext
    rcases htext with ⟨rfl, rfl⟩ | ⟨middle, rfl, rfl⟩ | ⟨middle, rfl, rfl⟩
    · exact .error label message
    · exact .confused ⟨label, middle, message', .inl ⟨rfl, rfl⟩⟩
    · exact .confused ⟨label', middle, message, .inr ⟨rfl, rfl⟩⟩
  case module.module address address' =>
    obtain rfl := eq_of_identity_eq htext
    exact .module address
  case function.function address address' =>
    obtain rfl := eq_of_identity_eq htext
    exact .function address

/-! ## Equality of values that have a key -/

/-- Values that have a key hold no others, so nothing but their heads decides. -/
theorem equals_iff_of_keyText? (ha : h.keyText? a = some text) :
    h.equals a b = true ↔ h.compareHeads a b = some [] := by
  have hsame : sameContainer a b = false := by
    cases a <;> simp [keyText?] at ha <;> rfl
  have hpairs : ∀ pairs, h.compareHeads a b = some pairs → pairs = [] := by
    intro pairs hheads
    obtain ⟨-, rfl⟩ | ⟨_, _, rfl, -⟩ | ⟨_, _, rfl, -⟩ | ⟨_, _, rfl, -⟩ := compareHeads_cases hheads
    · rfl
    all_goals simp [keyText?] at ha
  unfold equals comparisonLevels equalsWithin
  rw [hsame]
  cases hheads : h.compareHeads a b with
  | none => simp
  | some pairs =>
      obtain rfl := hpairs pairs hheads
      simp

/-- The heads of values of one key agree, unless both are NaN or they are confused errors. -/
theorem compareHeads_of_merged (hmerged : Merged a b) (hclear : ¬ Confused a b)
    (hnumber : ¬ (a = .float Float.nan ∧ b = .float Float.nan)) :
    h.compareHeads a b = some [] := by
  unfold compareHeads
  cases hmerged with
  | confused hconfused => exact absurd hconfused hclear
  | float hsame =>
      rcases hsame with hequal | ⟨rfl, rfl⟩
      · exact if_pos hequal
      · exact absurd ⟨rfl, rfl⟩ hnumber
  | integerFloat hexact => exact if_pos (ofInt_beq (smallWhole?_eq_some_iff.1 hexact).1)
  | floatInteger hexact => exact if_pos (ofInt_beq (smallWhole?_eq_some_iff.1 hexact).1)
  | _ => simp

/-- NaN does not equal itself. -/
theorem compareHeads_nan : h.compareHeads (.float Float.nan) (.float Float.nan) = none := by
  unfold compareHeads
  simp

/-- The labels of confused errors are of different lengths. -/
theorem compareHeads_of_confused (hconfused : Confused a b) : h.compareHeads a b = none := by
  have hne : ∀ label middle : String, label ≠ label ++ ":" ++ middle := by
    intro label middle heq
    have hlength := congrArg (fun text : String => text.toList.length) heq
    simp [String.toList_append] at hlength
  unfold compareHeads
  obtain ⟨label, middle, message, ⟨rfl, rfl⟩ | ⟨rfl, rfl⟩⟩ := hconfused
  · simp [hne label middle]
  · simp [(hne label middle).symm]

/-- An integer is keyed like a float that is exactly it, unless it is the least one: that one is of
64 bits. -/
theorem smallWhole?_eq_toInt_iff {number : Int64} {x : Float} :
    smallWhole? x = some number.toInt ↔
      ¬ (value? x ≠ some (number.toInt : ℚ) ∨ number = Int64.minValue) := by
  have hsize : number.toInt.natAbs < 2 ^ 63 ↔ number ≠ Int64.minValue := by
    have hle := number.le_toInt
    have hlt := number.toInt_lt
    have hleast : Int64.minValue.toInt = -2 ^ 63 := rfl
    rw [ne_eq, ← Int64.toInt_inj, hleast]
    omega
  rw [smallWhole?_eq_some_iff, hsize, not_or, not_not]

/-- Values whose heads agree have one key, but for an integer that was rounded. -/
theorem merged_of_compareHeads (ha : h.keyText? a = some text)
    (hheads : h.compareHeads a b = some []) (hexact : ¬ Rounded a b) : Merged a b := by
  unfold compareHeads at hheads
  cases a <;> cases b <;> simp only [keyText?, reduceCtorEq] at ha hheads
  case null.null => exact .null
  -- Numbers that compare as equal are keyed alike unless one of them was rounded.
  case integer.float number x =>
    exact .integerFloat (smallWhole?_eq_toInt_iff.2 fun hrounded =>
      hexact ⟨number, x, .inl ⟨rfl, rfl⟩, hrounded⟩)
  case float.integer x number =>
    exact .floatInteger (smallWhole?_eq_toInt_iff.2 fun hrounded =>
      hexact ⟨number, x, .inr ⟨rfl, rfl⟩, hrounded⟩)
  case float.float x y =>
    refine .float (.inl ?_)
    by_contra hdiffer
    simp [hdiffer] at hheads
  case error.error label message label' message' =>
    obtain ⟨rfl, rfl⟩ : label = label' ∧ message = message' := by simpa using hheads
    exact .error label message
  all_goals
    simp only [beq_iff_eq, Option.ite_none_right_eq_some, and_true] at hheads
    subst hheads
    constructor

/-- An integer that was rounded and the float have different keys. -/
theorem keyText?_ne_of_rounded (hrounded : Rounded a b) : h.keyText? a ≠ h.keyText? b := by
  intro htext
  obtain ⟨number, x, ⟨rfl, rfl⟩ | ⟨rfl, rfl⟩, hlost⟩ := hrounded <;>
    simp only [keyText?, Option.some.injEq, String.append_right_inj] at htext
  · exact smallWhole?_eq_toInt_iff.1
      ((floatKeyText_eq_toString_iff (natAbs_toInt_le number)).1 htext.symm) hlost
  · exact smallWhole?_eq_toInt_iff.1
      ((floatKeyText_eq_toString_iff (natAbs_toInt_le number)).1 htext) hlost

/-! ## The main statements -/

variable {k l : Key}

theorem key_eq_ok_iff : h.key a = .ok k ↔ ∃ text, h.keyText? a = some text ∧ k = .ofText text := by
  unfold key
  cases h.keyText? a <;> simp [eq_comm]

theorem ofText_eq_iff (ha : h.keyText? a = some text) (hb : h.keyText? b = some text') :
    Key.ofText text = Key.ofText text' ↔ h.keyText? a = h.keyText? b := by
  rw [ha, hb, Option.some.injEq]
  exact ⟨congrArg Key.text, congrArg Key.ofText⟩

/-- Values of one key are equal but for NaN and for errors that are confused. -/
theorem key_eq_and_not_equals_iff (ha : h.key a = .ok k) (hb : h.key b = .ok l)
    (hproper : ∀ instant, a = .datetime instant ∨ b = .datetime instant → instant.Proper) :
    k = l ∧ h.equals a b = false ↔
      Confused a b ∨ a = .float Float.nan ∧ b = .float Float.nan := by
  obtain ⟨text, htext, rfl⟩ := key_eq_ok_iff.1 ha
  obtain ⟨text', htext', rfl⟩ := key_eq_ok_iff.1 hb
  rw [ofText_eq_iff htext htext', ← Bool.not_eq_true, equals_iff_of_keyText? htext]
  constructor
  · rintro ⟨hsame, hdiffer⟩
    -- Values of one key are merged, and merged values are equal but for confused errors and NaN.
    have hmerged := merged_of_keyText? htext (hsame ▸ htext) hproper
    by_contra hclear
    rw [not_or] at hclear
    exact hdiffer (compareHeads_of_merged hmerged hclear.1 hclear.2)
  · rintro (hconfused | ⟨rfl, rfl⟩)
    · refine ⟨keyText?_of_merged (.confused hconfused), ?_⟩
      rw [compareHeads_of_confused hconfused]
      simp
    · rw [compareHeads_nan]
      simp

/-- A leap second is keyed apart from the minute that begins after it. -/
theorem keys_of_leap_second :
    ∃ k l, empty.key (.datetime ⟨59, 10 ^ 9⟩) = .ok k ∧ empty.key (.datetime ⟨60, 0⟩) = .ok l ∧
      (∀ instant, Value.datetime ⟨59, 10 ^ 9⟩ = .datetime instant ∨
        Value.datetime ⟨60, 0⟩ = .datetime instant → instant.Proper) ∧ k ≠ l := by
  have hproper : ∀ instant, Value.datetime ⟨59, 10 ^ 9⟩ = .datetime instant ∨
      Value.datetime ⟨60, 0⟩ = .datetime instant → instant.Proper := by
    rintro instant (hleap | hnext)
    · obtain rfl := Value.datetime.inj hleap
      exact .inr (by decide)
    · obtain rfl := Value.datetime.inj hnext
      exact .inl (by decide)
  refine ⟨_, _, rfl, rfl, hproper, fun hsame => ?_⟩
  have hdiffer : empty.equals (.datetime ⟨59, 10 ^ 9⟩) (.datetime ⟨60, 0⟩) = false := by
    decide +kernel
  obtain ⟨label, middle, message, ⟨herror, -⟩ | ⟨herror, -⟩⟩ | ⟨hnan, -⟩ :=
    (key_eq_and_not_equals_iff rfl rfl hproper).1 ⟨hsame, hdiffer⟩
  · nomatch herror
  · nomatch herror
  · nomatch hnan

/-- A colon may stand in the label of an error as in its message, and the key does not show where
the label ends. -/
theorem keys_of_confused_errors :
    empty.key (.error "a:b" "c") = .ok (.ofText "e:a:b:c") ∧
    empty.key (.error "a" "b:c") = .ok (.ofText "e:a:b:c") ∧
    empty.equals (.error "a:b" "c") (.error "a" "b:c") = false := by
  decide +kernel

/-- Equal values have one key but for an integer and the float to which it was rounded. -/
theorem key_eq_iff_of_equals (ha : h.key a = .ok k) (hb : h.key b = .ok l)
    (hequal : h.equals a b = true) : k = l ↔ ¬ Rounded a b := by
  obtain ⟨text, htext, rfl⟩ := key_eq_ok_iff.1 ha
  obtain ⟨text', htext', rfl⟩ := key_eq_ok_iff.1 hb
  have hheads := (equals_iff_of_keyText? htext).1 hequal
  rw [ofText_eq_iff htext htext']
  constructor
  · intro hsame hrounded
    exact keyText?_ne_of_rounded hrounded hsame
  · intro hexact
    exact keyText?_of_merged (merged_of_compareHeads htext hheads hexact)

/-- The float next to the least integer is keyed as the integer that it is. -/
theorem keys_next_to_least :
    ∃ k l, empty.key (.integer (-9223372036854774784)) = .ok k ∧
      empty.key (.float (-9223372036854774784)) = .ok l ∧
      empty.equals (.integer (-9223372036854774784)) (.float (-9223372036854774784)) = true ∧
      k = l := by
  have hequal : empty.equals (.integer (-9223372036854774784)) (.float (-9223372036854774784)) =
      true := by
    decide +kernel
  refine ⟨_, _, rfl, rfl, hequal, (key_eq_iff_of_equals rfl rfl hequal).2 ?_⟩
  rintro ⟨number, x, ⟨hinteger, hfloat⟩ | ⟨hinteger, -⟩, hlost⟩
  · obtain rfl := Value.integer.inj hinteger
    obtain rfl := Value.float.inj hfloat
    exact absurd hlost (by decide +kernel)
  · nomatch hinteger

/-- The least integer is equal to its float, but the float is keyed by its digits, which are those
that tell it from other floats and no more. -/
theorem keys_of_least :
    empty.key (.integer Int64.minValue) = .ok (.ofText "n:-9223372036854775808") ∧
    empty.key (.float (-9223372036854775808)) = .ok (.ofText "n:-9223372036854776000") ∧
    empty.equals (.integer Int64.minValue) (.float (-9223372036854775808)) = true := by
  decide +kernel

end Heap

end ScriptCore
