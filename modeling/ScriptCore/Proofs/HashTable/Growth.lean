import Mathlib.Data.List.Infix
import Mathlib.Order.Bounds.Basic
import ScriptCore.Proofs.HashTable.Consistency

/-!
# How wide a table is

A table doubles its capacity when an entry more would exceed it, and never gives any of it up.  So
the capacity remembers the most entries there were at one time, the `peak` (`peak_le_iff`): it is
the least size that comes of doubling the first one and that has room for the peak
(`capacity_isLeast`).

The test for room is made after the old entry of the key is taken out and before the new one is put
in.  Hence what it compares with the capacity is the number of entries that the write leaves, and a
key that is written again needs no more room than before, be the table full.

As far as entries are only counted it does not matter whether a key text always comes with one hash.
-/

namespace ScriptCore.HashTable

variable {κ ν : Type} {t : HashTable κ ν} {rows : List (ChainEntry κ ν)}

/-- The most entries that a table has at one time, before operations that are carried out one after
the other or after one of them. -/
def peak : List (Operation κ ν) → HashTable κ ν → ℕ
  | [], t => t.count
  | operation :: rest, t => max t.count (peak rest (operation.perform t).2)

/-- The sizes that come of doubling a first one and have room for a number of entries. -/
def Doublings (first number : ℕ) : Set ℕ :=
  {size | (∃ doublings, size = first * 2 ^ doublings) ∧ number ≤ size}

/-- The peak is the greatest number of entries that is left by some first operations. -/
theorem peak_le_iff {operations : List (Operation κ ν)} {bound : ℕ} :
    peak operations t ≤ bound ↔ ∀ done, done <+: operations →
      (ScriptCore.transcript Operation.perform done t).2.count ≤ bound := by
  induction operations generalizing t with
  | nil => simp [peak, ScriptCore.transcript]
  | cons operation rest ih =>
      rw [peak, Nat.max_le, ih]
      constructor
      · rintro ⟨hnow, hlater⟩ done hdone
        rcases List.prefix_cons_iff.1 hdone with rfl | ⟨done, rfl, hrest⟩
        · exact hnow
        · exact hlater done hrest
      · intro hall
        exact ⟨hall [] (List.nil_prefix), fun done hdone =>
          hall (operation :: done) ((List.prefix_cons_inj operation).2 hdone)⟩

theorem count_transcript_le_peak {done operations : List (Operation κ ν)}
    (hdone : done <+: operations) (t : HashTable κ ν) :
    (ScriptCore.transcript Operation.perform done t).2.count ≤ peak operations t :=
  peak_le_iff.1 (Nat.le_refl _) done hdone

theorem count_le_peak (operations : List (Operation κ ν)) (t : HashTable κ ν) :
    t.count ≤ peak operations t :=
  count_transcript_le_peak List.nil_prefix t

theorem isLeast_doublings_of_le {first number size count : ℕ}
    (hsize : IsLeast (Doublings first number) size) (hcount : count ≤ size) :
    IsLeast (Doublings first (max number count)) size := by
  obtain ⟨⟨hdoubled, hroom⟩, hleast⟩ := hsize
  refine ⟨⟨hdoubled, Nat.max_le.2 ⟨hroom, hcount⟩⟩, ?_⟩
  rintro other ⟨hother, hroom'⟩
  exact hleast ⟨hother, (Nat.max_le.1 hroom').1⟩

/-- When the least size is exceeded by one, the least that has room is twice as large. -/
theorem isLeast_doublings_succ {first number size : ℕ} (hfirst : 0 < first)
    (hsize : IsLeast (Doublings first number) size) :
    IsLeast (Doublings first (max number (size + 1))) (size * 2) := by
  obtain ⟨⟨⟨doublings, hdoubled⟩, hroom⟩, -⟩ := hsize
  have hpos : 0 < size := hdoubled ▸ Nat.mul_pos hfirst (Nat.two_pow_pos _)
  refine ⟨⟨⟨doublings + 1, by rw [hdoubled, Nat.pow_succ, Nat.mul_assoc]⟩, by omega⟩, ?_⟩
  rintro other ⟨⟨others, rfl⟩, hother⟩
  -- Any other size that has room exceeds this one, so it is a later doubling.
  have hlt : first * 2 ^ doublings < first * 2 ^ others := by omega
  have hlater : doublings < others :=
    (Nat.pow_lt_pow_iff_right Nat.one_lt_two).1 (Nat.lt_of_mul_lt_mul_left hlt)
  rw [hdoubled, Nat.mul_assoc, ← Nat.pow_succ]
  exact Nat.mul_le_mul_left _ (Nat.pow_le_pow_right Nat.two_pos hlater)

/-! ## What one operation does -/

theorem Removed.capacity_eq {key : String} {hash : UInt64}
    {result : Except RuntimeError ν × HashTable κ ν} (hremoved : Removed t key hash result) :
    result.2.capacity = t.capacity := by
  cases hremoved with
  | absent habsent => rfl
  | taken entry after hkey hbucket htakes => exact htakes.capacity_eq

theorem Removed.count_le {key : String} {hash : UInt64}
    {result : Except RuntimeError ν × HashTable κ ν} (hremoved : Removed t key hash result) :
    result.2.count ≤ t.count := by
  cases hremoved with
  | absent habsent => exact Nat.le_refl _
  | taken entry after hkey hbucket htakes => exact htakes.count_eq ▸ Nat.le_succ _

theorem grow_size (t : HashTable κ ν) :
    t.grow.capacity = t.capacity * 2 ∧ t.grow.count = t.count := by
  obtain ⟨buckets, -, hgrow⟩ := t.exists_grow
  rw [hgrow]
  exact ⟨rfl, rfl⟩

/-- Taking the old entry of a key out, if there is one, leaves the table as wide as it was. -/
theorem Stores.withoutKey_size (ht : t.Stores rows) (key : String) (hash : UInt64) :
    (t.withoutKey key hash).capacity = t.capacity ∧
    (t.withoutKey key hash).count + (if t.contains key hash then 1 else 0) = t.count := by
  unfold HashTable.withoutKey
  split
  · rename_i hcontains
    obtain ⟨row, hfound⟩ := Option.isSome_iff_exists.1 hcontains
    obtain ⟨after, rest, hremoved, -, htakes, -⟩ := ht.remove_of_find? hfound
    rw [hremoved]
    exact ⟨htakes.capacity_eq, htakes.count_eq⟩
  · exact ⟨rfl, rfl⟩

theorem withRoom_size (t : HashTable κ ν) :
    t.withRoom.count = t.count ∧
    t.withRoom.capacity = if t.capacity < t.count + 1 then t.capacity * 2 else t.capacity := by
  unfold HashTable.withRoom
  split
  · exact (grow_size t).symm
  · exact ⟨rfl, rfl⟩

/-- A write leaves one entry more than there were, unless the key was there before, and doubles the
table just if there was no room for the entries it leaves. -/
theorem Stores.append_size (ht : t.Stores rows) (rawKey : κ) (hash : UInt64) (key : String)
    (value : ν) :
    (t.append rawKey hash key value).count + (if t.contains key hash then 1 else 0) =
        t.count + 1 ∧
    (t.append rawKey hash key value).capacity =
      if t.capacity < (t.append rawKey hash key value).count then t.capacity * 2
      else t.capacity := by
  obtain ⟨hcapacity, hcount⟩ := ht.withoutKey_size key hash
  obtain ⟨hsame, hroom⟩ := withRoom_size (t.withoutKey key hash)
  have hadded : (t.append rawKey hash key value).count = (t.withoutKey key hash).count + 1 :=
    congrArg (· + 1) hsame
  rw [hadded]
  refine ⟨by omega, ?_⟩
  rw [hcapacity] at hroom
  exact hroom

/-- An operation that does not clear the table leaves it as wide as it was if there is room for the
entries it leaves, and else leaves one entry too many for that and doubles the table. -/
theorem Stores.perform_size (ht : t.Stores rows) (hfits : t.count ≤ t.capacity)
    {operation : Operation κ ν} (hkeeps : operation ≠ .clear) :
    (operation.perform t).2.count ≤ t.capacity ∧
      (operation.perform t).2.capacity = t.capacity ∨
    (operation.perform t).2.count = t.capacity + 1 ∧
      (operation.perform t).2.capacity = t.capacity * 2 := by
  cases operation with
  | append entry =>
      obtain ⟨hcount, hcapacity⟩ := ht.append_size entry.rawKey entry.hash entry.key entry.value
      simp only [Operation.perform]
      split at hcapacity
      · exact .inr ⟨by omega, hcapacity⟩
      · exact .inl ⟨by omega, hcapacity⟩
  | remove key hash =>
      have hremoved := (ht.removed key hash).1
      exact .inl ⟨hremoved.count_le.trans hfits, hremoved.capacity_eq⟩
  | clear => exact absurd rfl hkeeps

/-! ## What a row of operations does -/

/-- The capacity of a table stays the least that has room for the entries there were at most. -/
theorem Stores.isLeast_transcript (ht : t.Stores rows) {first number : ℕ} (hfirst : 0 < first)
    (hcapacity : IsLeast (Doublings first number) t.capacity) (hcount : t.count ≤ number)
    {operations : List (Operation κ ν)} (hkept : ∀ operation ∈ operations, operation ≠ .clear) :
    (∃ rest, (ScriptCore.transcript Operation.perform operations t).2.Stores rest) ∧
    IsLeast (Doublings first (max number (peak operations t)))
      (ScriptCore.transcript Operation.perform operations t).2.capacity := by
  induction operations generalizing t rows number with
  | nil =>
      refine ⟨⟨rows, ht⟩, ?_⟩
      rwa [peak, Nat.max_eq_left hcount]
  | cons operation rest ih =>
      obtain ⟨hkeeps, hrest⟩ := List.forall_mem_cons.1 hkept
      obtain ⟨others, hnext⟩ : ∃ others, (operation.perform t).2.Stores others :=
        ht.perform (.operation operation)
      have hleast : IsLeast (Doublings first (max number (operation.perform t).2.count))
          (operation.perform t).2.capacity := by
        obtain ⟨hroom, hsame⟩ | ⟨hexceeded, hdoubled⟩ :=
          ht.perform_size (hcount.trans hcapacity.1.2) hkeeps
        · rw [hsame]
          exact isLeast_doublings_of_le hcapacity hroom
        · rw [hexceeded, hdoubled]
          exact isLeast_doublings_succ hfirst hcapacity
      obtain ⟨hstores, hrun⟩ := ih hnext hleast (Nat.le_max_right ..) hrest
      have hafter := count_le_peak rest (operation.perform t).2
      -- The peak of a run is the greater of what its first step leaves and the peak of the rest.
      have hpeak : max (max number (operation.perform t).2.count)
          (peak rest (operation.perform t).2) = max number (peak (operation :: rest) t) := by
        simp only [peak]
        omega
      rw [hpeak] at hrun
      exact ⟨hstores, hrun⟩

/-- **The capacity of a table follows the most entries it had.**  After any writes and removals in a
table that was made with some capacity, its capacity is the least size that comes of doubling that
one, or one in the place of zero, and has room for the most entries there were at one time; there
are as many buckets.  Writing a key that is there does not make the table grow, though it may be
full; removing makes it no smaller; and clearing it makes the table that it would be if no capacity
had been asked for. -/
theorem capacity_isLeast (capacity : ℕ) (operations : List (Operation κ ν))
    (hkept : ∀ operation ∈ operations, operation ≠ .clear) :
    ∃ outcomes t,
      ScriptCore.transcript Operation.perform operations (withCapacity capacity) = (outcomes, t) ∧
      IsLeast {size | (∃ doublings, size = max capacity 1 * 2 ^ doublings) ∧
        peak operations (withCapacity capacity) ≤ size} t.capacity ∧
      t.buckets.size = t.capacity ∧ t.entries.length = t.count ∧
      (∀ rawKey hash key value, t.contains key hash = true →
        (t.append rawKey hash key value).capacity = t.capacity) ∧
      (∀ key hash, (t.remove key hash).2.capacity = t.capacity) ∧
      t.clear = withCapacity defaultCapacity ∧ t.clear.capacity = defaultCapacity := by
  have hempty : Stores (withCapacity capacity : HashTable κ ν) [] := stores_withCapacity capacity
  have hstart : IsLeast (Doublings (max capacity 1) 0)
      (withCapacity capacity : HashTable κ ν).capacity := by
    refine ⟨⟨⟨0, (Nat.mul_one _).symm⟩, Nat.zero_le _⟩, ?_⟩
    rintro other ⟨⟨doublings, rfl⟩, -⟩
    exact Nat.le_mul_of_pos_right _ (Nat.two_pow_pos _)
  obtain ⟨⟨rows, ht⟩, hleast⟩ :=
    hempty.isLeast_transcript (Nat.le_max_right ..) hstart (Nat.le_refl _) hkept
  rw [Nat.zero_max] at hleast
  refine ⟨_, _, rfl, hleast, ht.chained.1, ?_, ?_, ?_, rfl, rfl⟩
  · rw [entries, List.length_zip, ht.rawKeys.length_eq, ht.values.length_eq, Nat.min_self,
      ht.count_eq]
  · intro rawKey hash key value hcontains
    obtain ⟨hcount, hcapacity⟩ := ht.append_size rawKey hash key value
    -- The key is replaced, so the number of entries stays, and there was room for them.
    rw [if_pos hcontains, Nat.add_right_cancel_iff] at hcount
    have hfits := (count_transcript_le_peak List.prefix_rfl (withCapacity capacity)).trans
      hleast.1.2
    rw [hcapacity, hcount, if_neg (Nat.not_lt.2 hfits)]
  · exact fun key hash => (ht.removed key hash).1.capacity_eq

/-- Writes of four keys, one of them written again when there were three, and two removals. -/
def fourKeys : List (Operation Nat Nat) :=
  [.append ⟨1, 1, "a", 10⟩, .append ⟨2, 2, "b", 20⟩, .append ⟨3, 3, "c", 30⟩,
    .append ⟨2, 2, "b", 40⟩, .append ⟨4, 4, "d", 50⟩, .remove "a" 1, .remove "b" 2]

/-- The keys come with one hash each, so the entries can be counted in the listing. -/
theorem count_fourKeys {done : List (Operation Nat Nat)} (hdone : done <+: fourKeys) :
    (ScriptCore.transcript Operation.perform done (withCapacity 3)).2.count =
      (ScriptCore.transcript Operation.performListed done []).2.length := by
  have hhashed : ∀ operation ∈ fourKeys, operation.HashedBy fun key =>
      if key = "a" then 1 else if key = "b" then 2 else if key = "c" then 3 else 4 := by
    simp [fourKeys, Operation.HashedBy]
  exact count_transcript_withCapacity 3 done fun operation hoperation =>
    hhashed operation (hdone.subset hoperation)

theorem peak_fourKeys : peak fourKeys (withCapacity 3) = 4 := by
  have hall : ∀ done ∈ fourKeys.inits,
      (ScriptCore.transcript Operation.performListed done []).2.length ≤ 4 := by decide +kernel
  refine Nat.le_antisymm (peak_le_iff.2 fun done hdone => ?_) ?_
  · rw [count_fourKeys hdone]
    exact hall done ((List.mem_inits _ _).2 hdone)
  · have hfifth : fourKeys.take 5 <+: fourKeys := List.take_prefix _ _
    have hcount : (ScriptCore.transcript Operation.performListed (fourKeys.take 5) []).2.length =
        4 := by decide +kernel
    rw [← hcount, ← count_fourKeys hfifth]
    exact count_transcript_le_peak hfifth _

/-- A table for three entries is doubled for the fourth key and stays so, with two entries left. -/
theorem capacity_fourKeys :
    (∀ operation ∈ fourKeys, operation ≠ .clear) ∧
    peak (fourKeys.take 4) (withCapacity 3) = 3 ∧ peak fourKeys (withCapacity 3) = 4 ∧
    ∃ outcomes t,
      ScriptCore.transcript Operation.perform fourKeys (withCapacity 3) = (outcomes, t) ∧
      t.count = 2 ∧ t.capacity = 6 := by
  have hkept : ∀ operation ∈ fourKeys, operation ≠ .clear := by simp [fourKeys]
  obtain ⟨outcomes, t, hrun, hleast, -⟩ := capacity_isLeast 3 fourKeys hkept
  have hcount : t.count = 2 := by
    have hlisted : (ScriptCore.transcript Operation.performListed fourKeys []).2.length = 2 := by
      decide +kernel
    rw [← hlisted, ← count_fourKeys List.prefix_rfl, hrun]
  refine ⟨hkept, by decide +kernel, peak_fourKeys, outcomes, t, hrun, hcount, hleast.unique ?_⟩
  rw [peak_fourKeys]
  refine ⟨⟨⟨1, rfl⟩, by decide⟩, ?_⟩
  rintro other ⟨⟨doublings, rfl⟩, hroom⟩
  -- Three entries are not enough room, so the table was doubled once at least.
  cases doublings with
  | zero => exact absurd hroom (by decide)
  | succ doublings =>
      exact Nat.mul_le_mul_left 3 (Nat.pow_le_pow_right Nat.two_pos (Nat.succ_pos doublings))

end ScriptCore.HashTable
