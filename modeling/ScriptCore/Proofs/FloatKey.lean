import ScriptCore.Proofs.Decimal.Comparison
import ScriptCore.Proofs.Decimal.Positional
import ScriptCore.ValueKey

/-!
# What the key of a float tells of it

Floats that are not NaN have one key just if they are equal (`floatKeyText_eq_iff`), and a float has
the key of an integer just if it is that integer exactly and of less than 63 bits
(`floatKeyText_eq_toString_iff`).  Both rest on reading the key as a number: that number rounds to
the float, and to no other.

A key is read as a number (`textValue`): of a finite float this gives the shortest decimal that
rounds to it, with the sign.  So two finite floats of one text are both what that decimal rounds to
(`value?_eq_of_plainText_eq`); infinities and NaN are told from them by a letter, and from each
other by their texts (`eq_of_plainText_eq`).

The limit of 63 bits is not one of the text.  A whole float that reaches it is written by its
shortest decimal, which is more than `2 ^ 63`, so its text is not that of any integer of 64 bits
(`smallWhole?_isSome_of_plainText`).  The float that is exactly the least integer is one of these.
-/

namespace ScriptCore

open Decimal

variable {x y : Float} {v : ℚ}

/-! ## Texts of integers and of floats -/

theorem floatKeyText_of_smallWhole? {i : ℤ} (hwhole : smallWhole? x = some i) :
    floatKeyText x = toString i := by
  simp [floatKeyText, hwhole]

theorem floatKeyText_of_smallWhole?_eq_none (hnone : smallWhole? x = none) :
    floatKeyText x = plainText x := by
  simp [floatKeyText, hnone]

theorem isAlpha_of_isDigit {c : Char} (hc : c.isDigit = true) : c.isAlpha = false := by
  simp only [Char.isDigit, Char.isAlpha, Char.isUpper, Char.isLower] at *
  simp [UInt32.le_iff_toNat_le] at *
  omega

theorem isAlpha_of_mem_toString {i : ℤ} {c : Char} (hc : c ∈ (toString i).toList) :
    c.isAlpha = false := by
  have hrepr : ∀ n : ℕ, c ∈ n.repr.toList → c.isAlpha = false := by
    intro n hmem
    rw [Nat.toList_repr] at hmem
    exact isAlpha_of_isDigit (isDigit_of_mem_toDigits_ten hmem)
  cases i with
  | ofNat n => exact hrepr n hc
  | negSucc n =>
      change c ∈ ("-" ++ (n + 1).repr).toList at hc
      rw [String.toList_append] at hc
      rcases List.mem_cons.1 hc with rfl | hmem
      · rfl
      · exact hrepr (n + 1) hmem

theorem isAlpha_of_mem_plainText {negative : Bool} {a : Decimal.Dyadic}
    (hshape : shape x = .finite negative a) {c : Char} (hc : c ∈ (plainText x).toList) :
    c.isAlpha = false := by
  unfold plainText at hc
  rw [hshape, String.toList_append, List.mem_append] at hc
  rcases hc with hsign | hdigit
  · cases negative
    · simp [signText] at hsign
    · obtain rfl := List.mem_singleton.1 hsign
      rfl
  · rcases isDigit_of_mem_positional hdigit with hdigit | rfl
    · exact isAlpha_of_isDigit hdigit
    · rfl

/-- A float that is infinite or NaN is written with a letter. -/
theorem exists_isAlpha_of_value?_eq_none (hnone : value? x = none) :
    ∃ c ∈ (plainText x).toList, c.isAlpha = true := by
  unfold value? at hnone
  unfold plainText
  cases hshape : shape x with
  | notANumber => exact ⟨'N', by decide, rfl⟩
  | infinite negative => exact ⟨'f', by cases negative <;> decide, rfl⟩
  | finite negative magnitude => simp [hshape] at hnone

/-- A finite float that is written like an integer of 64 bits is whole, for else no whole number
rounds to it, and of less than 63 bits, for else what is written for it is more than the integer. -/
theorem smallWhole?_isSome_of_plainText {i : ℤ} (hi : i.natAbs ≤ 2 ^ 63)
    (hvalue : value? x = some v) (htext : plainText x = toString i) :
    (smallWhole? x).isSome = true := by
  obtain ⟨negative, a, hshape, rfl⟩ := value?_eq_some_iff.1 hvalue
  -- What is written is the shortest decimal, so without its sign that is the integer.
  have hshortest : a.shortest.value = i.natAbs := by
    have hread := textValue_plainText hshape
    rw [htext, textValue_toString] at hread
    rw [Nat.cast_natAbs, Int.cast_abs, hread, abs_signed, abs_of_nonneg (Scaled.value_nonneg _)]
  have hcovers := a.covers_shortest
  rw [hshortest] at hcovers
  obtain ⟨n, hn⟩ := hcovers.exists_value_eq
  -- From there on the decimal is above `2 ^ 63`, but the integer is not.
  have hlt : n < 2 ^ 63 := by
    by_contra hge
    have hlarge : 2 ^ 63 ≤ a.value := by
      rw [hn]
      exact_mod_cast not_lt.1 hge
    have hgreater := (canonical_of_shape hshape).lt_value_shortest hlarge
    rw [hshortest] at hgreater
    have hgreater' : 2 ^ 63 < i.natAbs := by exact_mod_cast hgreater
    omega
  have hwhole : smallWhole? x = some (if negative then -(n : ℤ) else n) := by
    refine smallWhole?_eq_some_iff.2 ⟨?_, ?_⟩
    · rw [hvalue, hn]
      cases negative <;> simp [signed]
    · cases negative <;> simpa using hlt
  rw [hwhole, Option.isSome_some]

/-- A float that is keyed by the text of an integer is the integer. -/
theorem smallWhole?_of_floatKeyText {i : ℤ} (hi : i.natAbs ≤ 2 ^ 63)
    (htext : floatKeyText x = toString i) : smallWhole? x = some i := by
  cases hwhole : smallWhole? x with
  | some whole =>
      rw [floatKeyText_of_smallWhole? hwhole] at htext
      rw [Int.repr_inj.1 htext]
  | none =>
      exfalso
      rw [floatKeyText_of_smallWhole?_eq_none hwhole] at htext
      cases hvalue : value? x with
      | none =>
          obtain ⟨c, hc, halpha⟩ := exists_isAlpha_of_value?_eq_none hvalue
          rw [htext] at hc
          simp [isAlpha_of_mem_toString hc] at halpha
      | some v =>
          have hsome := smallWhole?_isSome_of_plainText hi hvalue htext
          simp [hwhole] at hsome

/-- A float has the key of an integer of 64 bits just if it is the integer, and of less than 63
bits. -/
theorem floatKeyText_eq_toString_iff {i : ℤ} (hi : i.natAbs ≤ 2 ^ 63) :
    floatKeyText x = toString i ↔ smallWhole? x = some i :=
  ⟨smallWhole?_of_floatKeyText hi, floatKeyText_of_smallWhole?⟩

/-! ## Texts of two floats -/

theorem value?_eq_of_plainText_eq (hx : value? x = some v) (htext : plainText x = plainText y) :
    value? y = some v := by
  obtain ⟨negative, a, hxshape, rfl⟩ := value?_eq_some_iff.1 hx
  cases hy : value? y with
  | none =>
      -- Infinities and NaN are written with a letter, finite floats are not.
      obtain ⟨c, hc, halpha⟩ := exists_isAlpha_of_value?_eq_none hy
      rw [← htext] at hc
      simp [isAlpha_of_mem_plainText hxshape hc] at halpha
  | some w =>
      obtain ⟨negative', b, hyshape, rfl⟩ := value?_eq_some_iff.1 hy
      have hread := textValue_plainText hxshape
      rw [htext, textValue_plainText hyshape] at hread
      have hshortest : b.shortest.value = a.shortest.value := by
        have habs := congrArg abs hread
        rwa [abs_signed, abs_signed, abs_of_nonneg (Scaled.value_nonneg _),
          abs_of_nonneg (Scaled.value_nonneg _)] at habs
      have hbcovers := b.covers_shortest
      rw [hshortest] at hbcovers hread
      -- Both are what the one decimal rounds to.
      obtain rfl : a = b :=
        (canonical_of_shape hxshape).eq_of_covers (canonical_of_shape hyshape) a.covers_shortest
          hbcovers
      -- The signs agree where they are seen in the number; at zero both signs are one number.
      by_cases hzero : a.significand = 0
      · simp [Dyadic.value, hzero, signed]
      · have hpos := a.covers_shortest.pos (Nat.pos_of_ne_zero hzero)
        rw [eq_of_signed_eq hpos.ne' hread]

/-- Infinite floats and NaN are told apart by their texts. -/
theorem eq_of_plainText_eq (hx : value? x = none) (hy : value? y = none)
    (htext : plainText x = plainText y) : x = y := by
  apply shape_injective
  unfold plainText at htext
  unfold value? at hx hy
  cases hxshape : shape x with
  | finite negative a => simp [hxshape] at hx
  | notANumber =>
      cases hyshape : shape y with
      | finite negative a => simp [hyshape] at hy
      | notANumber => rfl
      | infinite negative =>
          rw [hxshape, hyshape] at htext
          cases negative <;> simp [signText] at htext
  | infinite negative =>
      cases hyshape : shape y with
      | finite negative a => simp [hyshape] at hy
      | notANumber =>
          rw [hxshape, hyshape] at htext
          cases negative <;> simp [signText] at htext
      | infinite negative' =>
          rw [hxshape, hyshape] at htext
          cases negative <;> cases negative' <;> simp [signText] at htext ⊢

theorem smallWhole?_eq_of_floatKeyText_eq {i : ℤ} (hx : smallWhole? x = some i)
    (htext : floatKeyText x = floatKeyText y) : smallWhole? y = some i := by
  have hlt := (smallWhole?_eq_some_iff.1 hx).2
  exact smallWhole?_of_floatKeyText hlt.le (htext ▸ floatKeyText_of_smallWhole? hx)

/-- Two floats of one key are both keyed by their digits or are both whole. -/
theorem plainText_eq_or_of_floatKeyText_eq (htext : floatKeyText x = floatKeyText y) :
    plainText x = plainText y ∨ ∃ i, smallWhole? x = some i ∧ smallWhole? y = some i := by
  cases hx : smallWhole? x with
  | some i => exact .inr ⟨i, rfl, smallWhole?_eq_of_floatKeyText_eq hx htext⟩
  | none =>
      cases hy : smallWhole? y with
      | some i =>
          rw [smallWhole?_eq_of_floatKeyText_eq hy htext.symm] at hx
          simp at hx
      | none =>
          rw [floatKeyText_of_smallWhole?_eq_none hx, floatKeyText_of_smallWhole?_eq_none hy]
            at htext
          exact .inl htext

/-- Two floats have one key just if they are equal or both NaN. -/
theorem floatKeyText_eq_iff :
    floatKeyText x = floatKeyText y ↔ (x == y) = true ∨ x = Float.nan ∧ y = Float.nan := by
  constructor
  · intro htext
    rcases plainText_eq_or_of_floatKeyText_eq htext with hplain | ⟨i, hx, hy⟩
    · cases hvalue : value? x with
      | some v =>
          exact .inl ((beq_iff_value?_eq hvalue).2 (value?_eq_of_plainText_eq hvalue hplain))
      | none =>
          cases hvalue' : value? y with
          | some v =>
              rw [value?_eq_of_plainText_eq hvalue' hplain.symm] at hvalue
              simp at hvalue
          | none =>
              obtain rfl := eq_of_plainText_eq hvalue hvalue' hplain
              by_cases hnan : x = Float.nan
              · exact .inr ⟨hnan, hnan⟩
              · exact .inl (Float.beq_self_iff.2 hnan)
    · exact .inl ((beq_iff_value?_eq (smallWhole?_eq_some_iff.1 hx).1).2
        (smallWhole?_eq_some_iff.1 hy).1)
  · -- The two zeros are equal but not the same float: their key has no sign.
    have hzeros : floatKeyText 0 = floatKeyText (-0) := by decide +kernel
    rintro (hequal | ⟨rfl, rfl⟩)
    · obtain ⟨-, -, rfl | ⟨rfl, rfl⟩ | ⟨rfl, rfl⟩⟩ := Float.beq_iff_ne_nan_and_eq.1 hequal
      · rfl
      · exact hzeros
      · exact hzeros.symm
    · rfl

end ScriptCore
