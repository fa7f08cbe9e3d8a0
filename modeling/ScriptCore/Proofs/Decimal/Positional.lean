import ScriptCore.Proofs.Decimal.Rounding

/-!
# Reading the texts of numbers

`textValue` reads a text of digits, with a point among them and a sign in front, as a rational
number.  It undoes the writing of integers (`textValue_toString`) and of decimals
(`textMagnitude_positional`), so that a float can be told from the number that its text is
(`textValue_plainText`).

Of a decimal, the zeros at the end of its digits are dropped before anything is written, and what is
left is written in one of three ways: with zeros behind it, with the point inside, or with zeros in
front.  Each of them is read back to the same number because the point stands where the exponent
says.
-/

namespace ScriptCore.Decimal

/-- The number that digits write, with or without a point. -/
def textMagnitude (text : List Char) : ℚ :=
  let whole := text.takeWhile (· != '.')
  let places := (text.dropWhile (· != '.')).tail
  Nat.ofDigitChars 10 (whole ++ places) 0 / 10 ^ places.length

/-- The number that a text writes that may begin with a minus. -/
def textValue : List Char → ℚ
  | '-' :: text => -textMagnitude text
  | text => textMagnitude text

/-! ## Texts with a point and without -/

theorem textMagnitude_of_no_point {text : List Char} (hpoint : '.' ∉ text) :
    textMagnitude text = Nat.ofDigitChars 10 text 0 := by
  have hall : ∀ c ∈ text, (c != '.') = true := fun c hc =>
    bne_iff_ne.2 (ne_of_mem_of_not_mem hc hpoint)
  simp [textMagnitude, List.takeWhile_eq_self_iff.2 hall, List.dropWhile_eq_nil_iff.2 hall]

theorem textMagnitude_of_point {whole : List Char} (hpoint : '.' ∉ whole) (places : List Char) :
    textMagnitude (whole ++ '.' :: places) =
      Nat.ofDigitChars 10 (whole ++ places) 0 / 10 ^ places.length := by
  have hall : ∀ c ∈ whole, (c != '.') = true := fun c hc =>
    bne_iff_ne.2 (ne_of_mem_of_not_mem hc hpoint)
  simp [textMagnitude, List.takeWhile_append_of_pos hall, List.dropWhile_append_of_pos hall]

theorem isDigit_of_mem_toDigits_ten {n : ℕ} {c : Char} (hc : c ∈ Nat.toDigits 10 n) :
    c.isDigit = true :=
  Nat.isDigit_of_mem_toDigits (by norm_num) (by norm_num) hc

theorem no_point_toDigits (n : ℕ) : '.' ∉ Nat.toDigits 10 n := by
  intro hmem
  simpa using isDigit_of_mem_toDigits_ten hmem

theorem textMagnitude_repr (n : ℕ) : textMagnitude n.repr.toList = n := by
  rw [Nat.toList_repr, textMagnitude_of_no_point (no_point_toDigits n),
    Nat.ofDigitChars_ten_toDigits]

/-! ## Decimals -/

/-- What is dropped are zeros. -/
theorem dropZeros_append (digits : List Char) :
    (Scaled.dropZeros digits).1 ++ List.replicate (Scaled.dropZeros digits).2 '0' = digits := by
  have hsplit : (digits.reverse.dropWhile (· == '0')).reverse ++
      (digits.reverse.takeWhile (· == '0')).reverse = digits := by
    rw [← List.reverse_append, List.takeWhile_append_dropWhile, List.reverse_reverse]
  have hzeros : (digits.reverse.takeWhile (· == '0')).reverse =
      List.replicate (digits.length - (digits.reverse.dropWhile (· == '0')).reverse.length)
        '0' := by
    refine List.eq_replicate_iff.2 ⟨?_, fun c hc => ?_⟩
    · have hlength := congrArg List.length hsplit
      rw [List.length_append] at hlength
      omega
    · simpa using List.mem_takeWhile_imp (List.mem_reverse.1 hc)
  unfold Scaled.dropZeros
  dsimp only
  rw [← hzeros]
  exact hsplit

theorem toList_zeros (count : ℕ) : (zeros count).toList = List.replicate count '0' := by
  simp [zeros]

theorem value_eq_of_digits {d : Scaled} {kept : List Char} {dropped : ℕ}
    (hdigits : kept ++ List.replicate dropped '0' = Nat.toDigits 10 d.digits) :
    d.value = Nat.ofDigitChars 10 kept 0 * 10 ^ (d.exponent + dropped) := by
  have hvalue := congrArg (Nat.ofDigitChars 10 · 0) hdigits
  simp only [Nat.ofDigitChars_append, Nat.ofDigitChars_replicate_zero,
    Nat.ofDigitChars_ten_toDigits] at hvalue
  rw [Scaled.value, ← hvalue, zpow_add₀ (by norm_num), zpow_natCast]
  push_cast
  ring

section Kept

variable {kept : List Char} (hpoint : '.' ∉ kept)

include hpoint

theorem textMagnitude_zeros_behind (k : ℕ) :
    textMagnitude (kept ++ List.replicate k '0') = Nat.ofDigitChars 10 kept 0 * 10 ^ k := by
  have hno : '.' ∉ kept ++ List.replicate k '0' := by simp [hpoint, List.mem_replicate]
  rw [textMagnitude_of_no_point hno, Nat.ofDigitChars_append, Nat.ofDigitChars_replicate_zero]
  push_cast
  ring

theorem textMagnitude_point_inside {k : ℕ} (hk : k < kept.length) :
    textMagnitude (kept.take (kept.length - k) ++ '.' :: kept.drop (kept.length - k)) =
      Nat.ofDigitChars 10 kept 0 / 10 ^ k := by
  have hno : '.' ∉ kept.take (kept.length - k) := fun hmem => hpoint (List.mem_of_mem_take hmem)
  have hplaces : (kept.drop (kept.length - k)).length = k := by
    rw [List.length_drop]
    omega
  rw [textMagnitude_of_point hno, List.take_append_drop, hplaces]

omit hpoint in
theorem textMagnitude_zeros_before {k : ℕ} (hk : kept.length ≤ k) :
    textMagnitude (['0'] ++ '.' :: (List.replicate (k - kept.length) '0' ++ kept)) =
      Nat.ofDigitChars 10 kept 0 / 10 ^ k := by
  have hplaces : (List.replicate (k - kept.length) '0' ++ kept).length = k := by
    rw [List.length_append, List.length_replicate]
    omega
  have hzeros : ['0'] ++ (List.replicate (k - kept.length) '0' ++ kept) =
      List.replicate (k - kept.length + 1) '0' ++ kept := by
    rw [List.replicate_succ]
    rfl
  rw [textMagnitude_of_point (by decide), hplaces, hzeros, Nat.ofDigitChars_append,
    Nat.ofDigitChars_replicate_zero, mul_zero]

end Kept

theorem textMagnitude_positional (d : Scaled) : textMagnitude d.positional.toList = d.value := by
  unfold Scaled.positional
  split_ifs with hzero
  · simp [textMagnitude, Scaled.value, hzero, Nat.ofDigitChars]
  · have hdigits := dropZeros_append (Nat.toDigits 10 d.digits)
    rw [Nat.toList_repr]
    generalize Scaled.dropZeros (Nat.toDigits 10 d.digits) = split at hdigits ⊢
    obtain ⟨kept, dropped⟩ := split
    -- The digits that are kept have no point among them, so the one that is written is the only
    -- one.
    have hpoint : '.' ∉ kept := by
      intro hmem
      refine no_point_toDigits d.digits ?_
      rw [← hdigits]
      exact List.mem_append_left _ hmem
    rw [value_eq_of_digits hdigits]
    dsimp only
    generalize d.exponent + (dropped : ℤ) = exponent
    split_ifs with hwhole hinside
    · obtain ⟨k, rfl⟩ := Int.eq_ofNat_of_zero_le hwhole
      rw [String.toList_append, String.toList_ofList, toList_zeros, Int.toNat_natCast,
        textMagnitude_zeros_behind hpoint, zpow_natCast]
    all_goals
      obtain ⟨k, hk⟩ := Int.eq_ofNat_of_zero_le (show 0 ≤ -exponent by omega)
      obtain rfl : exponent = -(k : ℤ) := by omega
      simp only [neg_neg, Int.toNat_natCast, not_lt] at hinside ⊢
      rw [zpow_neg, zpow_natCast, ← div_eq_mul_inv]
    · rw [← textMagnitude_point_inside hpoint hinside]
      simp
    · rw [← textMagnitude_zeros_before hinside]
      simp [toList_zeros]

/-- A decimal is written with digits and a point. -/
theorem isDigit_of_mem_positional {d : Scaled} {c : Char} (hc : c ∈ d.positional.toList) :
    c.isDigit = true ∨ c = '.' := by
  have hkept : ∀ c ∈ (Scaled.dropZeros d.digits.repr.toList).1, c.isDigit = true := by
    intro c hc
    have hmem : c ∈ Nat.toDigits 10 d.digits := by
      rw [← Nat.toList_repr, ← dropZeros_append d.digits.repr.toList]
      exact List.mem_append_left _ hc
    exact isDigit_of_mem_toDigits_ten hmem
  have hzero : ∀ {count : ℕ} {c : Char}, c ∈ List.replicate count '0' → c.isDigit = true := by
    rintro count c hc
    rw [List.eq_of_mem_replicate hc]
    rfl
  unfold Scaled.positional at hc
  dsimp only at hc
  split_ifs at hc with hdigits hwhole hinside
  · rw [List.mem_singleton.1 hc]
    exact .inl rfl
  · rw [String.toList_append, String.toList_ofList, toList_zeros, List.mem_append] at hc
    exact .inl (hc.elim (hkept c) hzero)
  · simp only [String.toList_append, String.toList_ofList, List.mem_append] at hc
    rcases hc with (hwhole | hdot) | hplaces
    · exact .inl (hkept c (List.mem_of_mem_take hwhole))
    · exact .inr (List.mem_singleton.1 hdot)
    · exact .inl (hkept c (List.mem_of_mem_drop hplaces))
  · simp only [String.toList_append, String.toList_ofList, toList_zeros, List.mem_append] at hc
    rcases hc with (hfront | hzeros) | hdigit
    · rcases List.mem_cons.1 hfront with rfl | hdot
      · exact .inl rfl
      · exact .inr (List.mem_singleton.1 hdot)
    · exact .inl (hzero hzeros)
    · exact .inl (hkept c hdigit)

/-! ## Texts with a sign -/

theorem textValue_of_no_minus {text : List Char} (hminus : '-' ∉ text) :
    textValue text = textMagnitude text := by
  unfold textValue
  split
  · simp at hminus
  · rfl

theorem textValue_toString (i : ℤ) : textValue (toString i).toList = i := by
  have hrepr : ∀ n : ℕ, '-' ∉ n.repr.toList := by
    intro n hmem
    rw [Nat.toList_repr] at hmem
    simpa using isDigit_of_mem_toDigits_ten hmem
  cases i with
  | ofNat n =>
      change textValue n.repr.toList = _
      rw [textValue_of_no_minus (hrepr n), textMagnitude_repr]
      rfl
  | negSucc n =>
      change textValue ("-" ++ (n + 1).repr).toList = _
      rw [String.toList_append]
      change -textMagnitude (n + 1).repr.toList = _
      rw [textMagnitude_repr, Int.cast_negSucc]

/-- The text of a finite float is that of the number that its shortest digits are. -/
theorem textValue_plainText {x : Float} {negative : Bool} {magnitude : Dyadic}
    (hshape : shape x = .finite negative magnitude) :
    textValue (plainText x).toList = signed negative magnitude.shortest.value := by
  have hminus : '-' ∉ magnitude.shortest.positional.toList := by
    intro hmem
    simpa using isDigit_of_mem_positional hmem
  unfold plainText
  rw [hshape, String.toList_append]
  cases negative with
  | false =>
      change textValue magnitude.shortest.positional.toList = _
      rw [textValue_of_no_minus hminus, textMagnitude_positional]
      rfl
  | true =>
      change -textMagnitude magnitude.shortest.positional.toList = _
      rw [textMagnitude_positional]
      rfl

end ScriptCore.Decimal
