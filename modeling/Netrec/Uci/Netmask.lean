import Netrec.CLib.Literals
import Netrec.Uci.Build

/-!
# Netmasks

`mask_to_prefix` checks in one loop that no bit of a mask is set behind a clear one, and counts the
leading ones in another, which shifts the mask to the left until its top bit is clear. Bits are
numbered from the top here: both loops go over them in this order, and a shift by one moves every
bit to the number before it.

## Main definitions

* `prefixMask p`: the mask with its `p` top bits set
* `msb v j`: bit `j` of a mask, counted from the top

## Main results

* `maskContiguous_iff`: the masks that pass the first loop
* `leadingOnes_eq_iff`: what the second loop counts
* `maskToPrefix_exact`: the two together are the inverse of `prefixMask`
-/

namespace Netrec

open CLib

/-! ## Bits of a mask -/

/-- The mask with its `p` top bits set, for `p` up to 32. -/
def prefixMask (p : Nat) : UInt32 := UInt32.ofNat (2 ^ 32 - 2 ^ (32 - p))

/-- Bit `j` of a mask, counted from the top. -/
def msb (v : UInt32) (j : Nat) : Bool := v.toBitVec.getMsbD j

/-- `v <<= 1`. -/
def shl (v : UInt32) : UInt32 := v <<< 1

/-- A mask is its bits. -/
theorem eq_iff_msb {v w : UInt32} : v = w ↔ ∀ j < 32, msb v j = msb w j := by
  refine ⟨fun h j _ => h ▸ rfl, fun h => ?_⟩
  exact UInt32.toBitVec_inj.mp (BitVec.eq_of_getMsbD_eq h)

theorem msb_prefixMask {p j : Nat} (hj : j < 32) : msb (prefixMask p) j = decide (j < p) := by
  have hpow : 1 ≤ 2 ^ (32 - p) := Nat.one_le_two_pow
  have hle : 2 ^ (32 - p) ≤ 2 ^ 32 := Nat.pow_le_pow_right (by decide) (by omega)
  -- the complement of the mask is the number with its low bits set
  have hcompl : 2 ^ 32 - 2 ^ (32 - p) = 2 ^ 32 - ((2 ^ (32 - p) - 1) + 1) := by omega
  rw [msb, prefixMask, UInt32.toBitVec_ofNat', BitVec.getMsbD, BitVec.getLsbD_ofNat, hcompl,
    Nat.testBit_two_pow_sub_succ (by omega), Nat.testBit_two_pow_sub_one, Bool.eq_iff_iff]
  simp only [Bool.and_eq_true, decide_eq_true_eq, Bool.not_eq_true', decide_eq_false_iff_not]
  omega

theorem prefixMask_toNat (p : Nat) : (prefixMask p).toNat = 2 ^ 32 - 2 ^ (32 - p) := by
  have hpow : 1 ≤ 2 ^ (32 - p) := Nat.one_le_two_pow
  rw [prefixMask, UInt32.toNat_ofNat', Nat.mod_eq_of_lt (by omega)]

theorem msb_of_le {v : UInt32} {j : Nat} (h : 32 ≤ j) : msb v j = false :=
  BitVec.getMsbD_of_ge _ _ h

theorem msb_shift (v : UInt32) (j : Nat) : msb (shl v) j = msb v (j + 1) :=
  BitVec.getMsbD_shiftLeft v.toBitVec 1

theorem msb_shifts (v : UInt32) (n j : Nat) : msb (shl^[n] v) j = msb v (j + n) := by
  induction n generalizing v with
  | zero => rfl
  | succ n ih => rw [Function.iterate_succ_apply, ih, msb_shift, Nat.add_assoc]

/-- The bit `1U << n` is where it should be: the shift is in range. -/
theorem one_shift_toNat {n : Nat} (hn : n < 32) :
    ((1 : UInt32) <<< UInt32.ofNat n).toNat = 2 ^ n := by
  have hpow : 2 ^ n < 2 ^ 32 := Nat.pow_lt_pow_right (by decide) hn
  rw [UInt32.toNat_shiftLeft, UInt32.toNat_ofNat', Nat.mod_eq_of_lt (by omega : n < 2 ^ 32),
    Nat.mod_eq_of_lt hn, Nat.shiftLeft_eq, UInt32.toNat_one, Nat.one_mul, Nat.mod_eq_of_lt hpow]

/-- The test `v & (1U << n)`. -/
theorem and_shift_ne_zero {v : UInt32} {n : Nat} (hn : n < 32) :
    v &&& (1 <<< UInt32.ofNat n) ≠ 0 ↔ msb v (31 - n) = true := by
  have hshift : ((1 : UInt32) <<< UInt32.ofNat n).toBitVec = BitVec.twoPow 32 n := by
    refine BitVec.eq_of_toNat_eq ?_
    rw [UInt32.toNat_toBitVec, one_shift_toNat hn, BitVec.toNat_twoPow_of_lt hn]
  have hmsb : msb v (31 - n) = v.toBitVec.getLsbD n := by
    rw [msb, BitVec.getMsbD, decide_eq_true (by omega), Bool.true_and]
    congr 1
    omega
  rw [hmsb, ne_eq, ← UInt32.toBitVec_inj, UInt32.toBitVec_and, hshift, BitVec.and_twoPow]
  split_ifs with hbit
  · refine iff_of_true (fun h => ?_) hbit
    have hval := congrArg BitVec.toNat h
    rw [BitVec.toNat_twoPow_of_lt hn] at hval
    exact absurd hval (Nat.pos_iff_ne_zero.mp (Nat.two_pow_pos n))
  · exact iff_of_false (fun h => h rfl) hbit

/-- The test `v & 0x80000000U`. -/
theorem and_top_ne_zero {v : UInt32} : v &&& 0x80000000 ≠ 0 ↔ msb v 0 = true :=
  and_shift_ne_zero (n := 31) (by decide)

/-! ## The two loops -/

/-- The first loop after a clear bit: all bits left are clear. -/
theorem maskContiguous_true_iff {v : UInt32} {n : Nat} (hn : n ≤ 32) :
    maskContiguous v n true ↔ ∀ j, 32 - n ≤ j → j < 32 → msb v j = false := by
  induction n with
  | zero => exact iff_of_true rfl fun j h₁ h₂ => absurd h₂ (by omega)
  | succ n ih =>
    rw [maskContiguous]
    simp only [and_shift_ne_zero (v := v) (by omega : n < 32), if_true]
    split_ifs with hbit
    · refine iff_of_false (by simp) fun h => ?_
      rw [h (31 - n) (by omega) (by omega)] at hbit
      cases hbit
    · rw [ih (by omega)]
      constructor
      · intro h j h₁ h₂
        obtain rfl | hj : j = 31 - n ∨ 32 - n ≤ j := by omega
        · simpa using hbit
        · exact h j hj h₂
      · exact fun h j h₁ => h j (by omega)

/-- **The first loop** accepts ones followed by zeros: the bits in front of some position. -/
theorem maskContiguous_iff {v : UInt32} {n : Nat} (hn : n ≤ 32) :
    maskContiguous v n false ↔
      ∃ k ≤ 32, 32 - n ≤ k ∧ ∀ j, 32 - n ≤ j → j < 32 → msb v j = decide (j < k) := by
  induction n with
  | zero =>
    refine iff_of_true rfl ⟨32, le_rfl, by omega, fun j h₁ h₂ => absurd h₂ (by omega)⟩
  | succ n ih =>
    rw [maskContiguous]
    simp only [and_shift_ne_zero (v := v) (by omega : n < 32), Bool.false_eq_true, if_false]
    split_ifs with hbit
    · rw [ih (by omega)]
      constructor
      · rintro ⟨k, hk, hnk, h⟩
        refine ⟨k, hk, by omega, fun j h₁ h₂ => ?_⟩
        obtain rfl | hj : j = 31 - n ∨ 32 - n ≤ j := by omega
        · rw [hbit, decide_eq_true (by omega)]
        · exact h j hj h₂
      · rintro ⟨k, hk, hnk, h⟩
        have hk' : 31 - n < k := by simpa [hbit] using h (31 - n) (by omega) (by omega)
        exact ⟨k, hk, by omega, fun j h₁ => h j (by omega)⟩
    · rw [maskContiguous_true_iff (by omega)]
      constructor
      · intro h
        refine ⟨31 - n, by omega, by omega, fun j h₁ h₂ => ?_⟩
        rw [decide_eq_false (by omega)]
        obtain rfl | hj : j = 31 - n ∨ 32 - n ≤ j := by omega
        · simpa using hbit
        · exact h j hj h₂
      · rintro ⟨k, hk, hnk, h⟩ j h₁ h₂
        -- the clear bit is behind the last one
        have hk' : ¬ 31 - n < k := by simpa [hbit] using h (31 - n) (by omega) (by omega)
        rw [h j (by omega) h₂, decide_eq_false (by omega)]

/-- **The second loop** counts the ones in front of the first clear bit. -/
theorem leadingOnes_eq_iff {n k : Nat} {v : UInt32} :
    leadingOnes n v = k ↔ k ≤ n ∧ (∀ j < k, msb v j = true) ∧ (k < n → msb v k = false) := by
  induction n generalizing v k with
  | zero =>
    rw [leadingOnes]
    constructor
    · rintro rfl
      simp
    · rintro ⟨hk, -, -⟩
      omega
  | succ n ih =>
    rw [leadingOnes]
    simp only [and_top_ne_zero]
    split_ifs with hbit
    · cases k with
      | zero =>
        refine iff_of_false (by omega) fun h => ?_
        rw [h.2.2 (Nat.succ_pos n)] at hbit
        cases hbit
      | succ k =>
        rw [Nat.add_comm 1, Nat.add_right_cancel_iff, ih]
        simp only [show v <<< 1 = shl v from rfl, msb_shift, Nat.add_le_add_iff_right,
          Nat.add_lt_add_iff_right]
        refine and_congr_right fun _ => and_congr_left fun _ => ?_
        constructor
        · intro h j hj
          cases j with
          | zero => exact hbit
          | succ j => exact h j (by omega)
        · exact fun h j hj => h (j + 1) (by omega)
    · constructor
      · rintro rfl
        simpa using hbit
      · rintro ⟨-, h, -⟩
        by_contra hk
        exact hbit (h 0 (by omega))

/-! ## The conversion -/

/-- The two loops together. -/
theorem mask_loops_iff {v : UInt32} {p : Nat} :
    maskContiguous v 32 false ∧ leadingOnes 32 v = p ↔ p ≤ 32 ∧ v = prefixMask p := by
  rw [maskContiguous_iff le_rfl, leadingOnes_eq_iff, eq_iff_msb]
  constructor
  · rintro ⟨⟨k, hk, -, hbits⟩, hp, hones, hclear⟩
    -- the position of the first loop is the number of the second
    have hkp : k = p := by
      rcases Nat.lt_trichotomy k p with h | h | h
      · have h₁ := hones k h
        rw [hbits k (by omega) (by omega)] at h₁
        simp at h₁
      · exact h
      · have h₁ := hclear (by omega)
        rw [hbits p (by omega) (by omega)] at h₁
        simp at h₁
        omega
    refine ⟨hp, fun j hj => ?_⟩
    rw [hbits j (by omega) hj, msb_prefixMask hj, hkp]
  · rintro ⟨hp, hv⟩
    refine ⟨⟨p, hp, by omega, fun j _ hj => ?_⟩, hp, fun j hj => ?_, fun hlt => ?_⟩
    · rw [hv j hj, msb_prefixMask hj]
    · rw [hv j (by omega), msb_prefixMask (by omega), decide_eq_true hj]
    · rw [hv p hlt, msb_prefixMask hlt, decide_eq_false (by omega)]

/-- The second loop ends by itself: it goes on as long as the top bit is set, which is at most
32 times. -/
theorem leadingOnes_run (v : UInt32) :
    leadingOnes 32 v ≤ 32 ∧
      (∀ i < leadingOnes 32 v, (shl^[i] v) &&& 0x80000000 ≠ 0) ∧
      (shl^[leadingOnes 32 v] v) &&& 0x80000000 = 0 := by
  obtain ⟨hle, hones, hclear⟩ := leadingOnes_eq_iff.mp (rfl : leadingOnes 32 v = leadingOnes 32 v)
  refine ⟨hle, fun i hi => ?_, ?_⟩
  · rw [and_top_ne_zero, msb_shifts, Nat.zero_add]
    exact hones i hi
  · rw [← not_ne_iff, and_top_ne_zero, msb_shifts, Nat.zero_add, Bool.not_eq_true]
    obtain h | h := Nat.lt_or_ge (leadingOnes 32 v) 32
    · exact hclear h
    · exact msb_of_le h

/-- **`mask_to_prefix` is exact.** A mask is converted to `p` exactly when it is the mask with its
`p` top bits set, and any other mask is refused. Each mask of that form has a text that is converted
back. The bits that the first loop looks at are in range, and the second loop ends after at most 32
shifts. -/
theorem maskToPrefix_exact :
    (∀ mask v p, inetPton mask = some v →
      (maskToPrefix mask = .ok p ↔ p ≤ 32 ∧ v.toNat = 2 ^ 32 - 2 ^ (32 - p))) ∧
    (∀ mask v, inetPton mask = some v → (∀ p ≤ 32, v.toNat ≠ 2 ^ 32 - 2 ^ (32 - p)) →
      maskToPrefix mask = .error .EINVAL) ∧
    (∀ p ≤ 32, maskToPrefix (dotted (prefixMask p)) = .ok p) ∧
    (∀ bits < 32, ((1 : UInt32) <<< UInt32.ofNat (31 - bits)).toNat = 2 ^ (31 - bits)) ∧
    ∀ v : UInt32, leadingOnes 32 v ≤ 32 ∧
      (∀ i < leadingOnes 32 v, (shl^[i] v) &&& 0x80000000 ≠ 0) ∧
      (shl^[leadingOnes 32 v] v) &&& 0x80000000 = 0 := by
  have hmask : ∀ {mask v p}, inetPton mask = some v →
      (maskToPrefix mask = .ok p ↔ p ≤ 32 ∧ v = prefixMask p) := by
    intro mask v p hv
    rw [← mask_loops_iff, maskToPrefix, hv]
    cases hc : maskContiguous v 32 false <;> simp [hc]
  have hval : ∀ {v : UInt32} {p : Nat}, v = prefixMask p ↔ v.toNat = 2 ^ 32 - 2 ^ (32 - p) := by
    intro v p
    rw [← UInt32.toNat_inj, prefixMask_toNat]
  refine ⟨fun mask v p hv => ?_, fun mask v hv hne => ?_, fun p hp => ?_, fun bits hbits => ?_,
    leadingOnes_run⟩
  · rw [hmask hv, hval]
  · cases hok : maskToPrefix mask with
    | error e =>
      rw [maskToPrefix, hv] at hok
      simp only at hok
      split_ifs at hok
      exact hok.symm
    | ok p =>
      obtain ⟨hp, hvp⟩ := (hmask hv).mp hok
      exact absurd (hval.mp hvp) (hne p hp)
  · exact (hmask (inetPton_dotted _)).mpr ⟨hp, rfl⟩
  · exact one_shift_toNat (by omega)

theorem maskToPrefix_exact_24 :
    inetPton "255.255.255.0".toList = some 0xffffff00 ∧
      maskToPrefix "255.255.255.0".toList = .ok 24 := by
  have hv : inetPton "255.255.255.0".toList = some 0xffffff00 := by decide
  exact ⟨hv, (maskToPrefix_exact.1 _ _ 24 hv).mpr (by decide)⟩

end Netrec
