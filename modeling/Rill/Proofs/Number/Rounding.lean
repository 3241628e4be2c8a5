import Mathlib
import Rill.Number.Text

/-!
# Rounding to a stored number

A mantissa that is too long for its exponent is shifted, and rounded to 53 bits (`rounded`), which
may make it one bit longer again (`roundWithAccuracy_eq`). Where it has all its bits, rounding adds
at most a half of the last place, and the result is a stored number below the middle between the
greatest one and the next power of two (`exists_rounded`). What is packed into bits is unpacked from
them (`unpack_pack_finite`), unless its exponent is too large (`isFinite_pack_finite`).
-/

namespace Rill.Number

open Float.Model Float.Model.UnpackedFloat

/-! ## Shifting a mantissa -/

theorem mantissa_shiftRight (em : ExtendedMantissa) (k : Nat) :
    (em >>> k).mantissa = em.mantissa / 2 ^ k := by
  induction k with
  | zero => exact (Nat.div_one _).symm
  | succ k ih =>
    have hstep : (em >>> (k + 1)).mantissa = (em >>> k).mantissa / 2 := rfl
    rw [hstep, ih, Nat.div_div_eq_div_mul, Nat.pow_succ]

@[simp] theorem mantissa_ofMantissaAndAccuracy (m : Nat) (acc : Accuracy) :
    (ExtendedMantissa.ofMantissaAndAccuracy m acc).mantissa = m := by
  cases acc with
  | exact => rfl
  | inexact o => cases o <;> rfl

theorem le_roundedMantissa (em : ExtendedMantissa) : em.mantissa ≤ em.roundedMantissa := by
  obtain ⟨m, r, t⟩ := em
  cases r <;> cases t <;>
    simp [ExtendedMantissa.roundedMantissa, ExtendedMantissa.accuracy, Accuracy.roundToNearestEven]

theorem roundedMantissa_le (em : ExtendedMantissa) :
    em.roundedMantissa ≤ em.mantissa + em.roundBit.toNat := by
  obtain ⟨m, r, t⟩ := em
  cases r <;> cases t <;>
    simp [ExtendedMantissa.roundedMantissa, ExtendedMantissa.accuracy, Accuracy.roundToNearestEven]
  omega

/-- Rounding up takes a half. -/
theorem roundedMantissa_shiftRight_succ_le (em : ExtendedMantissa) (k : Nat) :
    (em >>> (k + 1)).roundedMantissa ≤ (em.mantissa / 2 ^ k + 1) / 2 := by
  have hmantissa : (em >>> (k + 1)).mantissa = (em >>> k).mantissa / 2 := rfl
  have hbit : (em >>> (k + 1)).roundBit = ((em >>> k).mantissa % 2 != 0) := rfl
  have hle := roundedMantissa_le (em >>> (k + 1))
  rw [hmantissa, hbit, mantissa_shiftRight] at hle
  have hmod : ((em.mantissa / 2 ^ k) % 2 != 0).toNat = em.mantissa / 2 ^ k % 2 := by
    rcases Nat.mod_two_eq_zero_or_one (em.mantissa / 2 ^ k) with h | h <;> rw [h] <;> rfl
  omega

/-- By how many bits a mantissa is too long for its exponent. -/
def excess (m : Nat) (e : Int) : Nat := (max (totalExponent m e - 53) (-1074) - e).toNat

/-- The mantissa without these bits, rounded. -/
def rounded (m : Nat) (e : Int) (acc : Accuracy) : Nat :=
  (ExtendedMantissa.ofMantissaAndAccuracy m acc >>> excess m e).roundedMantissa

theorem le_add_excess (m : Nat) (e : Int) : -1074 ≤ e + excess m e := by
  rw [excess]
  omega

theorem excess_of_lt {m : Nat} {e : Int} (hm : m < 2 ^ 53) (he : -1074 ≤ e) : excess m e = 0 := by
  have hlog : m.log2 < 53 := by
    rcases Nat.eq_zero_or_pos m with rfl | hpos
    · decide
    · exact (Nat.log2_lt hpos.ne').mpr hm
  rw [excess, totalExponent]
  omega

theorem excess_two_pow {e : Int} (he : -1074 ≤ e) : excess (2 ^ 53) e = 1 := by
  rw [excess, totalExponent, Nat.log2_two_pow]
  omega

theorem div_excess_lt (m : Nat) (e : Int) : m / 2 ^ excess m e < 2 ^ 53 := by
  rw [Nat.div_lt_iff_lt_mul (Nat.two_pow_pos _), ← Nat.pow_add]
  refine Nat.lt_log2_self.trans_le (Nat.pow_le_pow_right (by decide) ?_)
  rw [excess, totalExponent]
  omega

theorem rounded_le (m : Nat) (e : Int) (acc : Accuracy) : rounded m e acc ≤ 2 ^ 53 := by
  have hm := div_excess_lt m e
  have hle := roundedMantissa_le (ExtendedMantissa.ofMantissaAndAccuracy m acc >>> excess m e)
  have hbit := Bool.toNat_le (ExtendedMantissa.ofMantissaAndAccuracy m acc >>> excess m e).roundBit
  rw [mantissa_shiftRight, mantissa_ofMantissaAndAccuracy] at hle
  rw [rounded]
  omega

theorem rounded_mul_le {m t : Nat} {e : Int} (h : excess m e = t) (hm : 2 ^ (52 + t) ≤ m) :
    rounded m e .exact * 2 ^ t ≤ m + m / 2 ^ 53 := by
  rw [rounded, h]
  cases t with
  | zero =>
    rw [Nat.pow_zero, Nat.mul_one]
    exact Nat.le_add_right ..
  | succ k =>
    have hle := roundedMantissa_shiftRight_succ_le (.ofMantissaAndAccuracy m .exact) k
    rw [mantissa_ofMantissaAndAccuracy] at hle
    have hk : 2 ^ k ≤ m / 2 ^ 53 := by
      rw [Nat.le_div_iff_mul_le (by decide), ← Nat.pow_add]
      exact hm.trans' (Nat.pow_le_pow_right (by decide) (by omega))
    calc (ExtendedMantissa.ofMantissaAndAccuracy m .exact >>> (k + 1)).roundedMantissa * 2 ^ (k + 1)
        ≤ (m / 2 ^ k + 1) / 2 * 2 ^ (k + 1) := Nat.mul_le_mul_right _ hle
      _ = (m / 2 ^ k + 1) / 2 * 2 * 2 ^ k := by rw [Nat.pow_succ', Nat.mul_assoc]
      _ ≤ (m / 2 ^ k + 1) * 2 ^ k := Nat.mul_le_mul_right _ (Nat.div_mul_le_self ..)
      _ = m / 2 ^ k * 2 ^ k + 2 ^ k := Nat.add_one_mul ..
      _ ≤ m + m / 2 ^ 53 := Nat.add_le_add (Nat.div_mul_le_self ..) hk

theorem le_rounded {m t : Nat} {e : Int} (h : excess m e = t) (hm : 2 ^ (52 + t) ≤ m) :
    2 ^ 52 ≤ rounded m e .exact := by
  have hle := le_roundedMantissa (ExtendedMantissa.ofMantissaAndAccuracy m .exact >>> t)
  rw [mantissa_shiftRight, mantissa_ofMantissaAndAccuracy] at hle
  rw [rounded, h]
  refine Nat.le_trans ?_ hle
  rwa [Nat.le_div_iff_mul_le (Nat.two_pow_pos _), ← Nat.pow_add]

/-- Rounding a mantissa may make it one bit longer, and it is then a power of two. -/
theorem roundWithAccuracy_eq (s : Sign) (m : Nat) (e : Int) (acc : Accuracy) :
    roundWithAccuracy Format.binary64 s m e acc =
      if h : rounded m e acc = 0 then .zero s
      else if rounded m e acc = 2 ^ 53 then
        .finite s (2 ^ 52) (e + excess m e + 1) (Nat.two_pow_pos 52)
      else .finite s (rounded m e acc) (e + excess m e) (Nat.pos_of_ne_zero h) := by
  have hleast := le_add_excess m e
  have hle := rounded_le m e acc
  have hround : roundWithAccuracy Format.binary64 s m e acc =
      if h : (shiftToTargetExponent Format.binary64 (rounded m e acc) (e + excess m e)
        .exact).1.mantissa = 0 then .zero s
      else .finite s _ (e + excess m e + excess (rounded m e acc) (e + excess m e))
        (Nat.pos_of_ne_zero h) := rfl
  have hagain (r : Nat) (e' : Int) :
      (shiftToTargetExponent Format.binary64 r e' .exact).1.mantissa = r / 2 ^ excess r e' :=
    (mantissa_shiftRight (.ofMantissaAndAccuracy r .exact) (excess r e')).trans (by
      rw [mantissa_ofMantissaAndAccuracy])
  rw [hround]
  simp only [hagain]
  generalize rounded m e acc = r at hle ⊢
  rcases Nat.lt_or_eq_of_le hle with hlt | rfl
  · simp only [excess_of_lt hlt hleast, if_neg hlt.ne, Nat.pow_zero, Nat.div_one, Int.natCast_zero,
      Int.add_zero]
  · simp only [excess_two_pow hleast, if_true]
    rfl

/-! ## Rounding a mantissa that has all its bits -/

/-- The middle between the greatest number and the next power of two. -/
def overflow : Nat := (2 ^ 54 - 1) * 2 ^ 970

theorem cast_overflow : (overflow : ℚ) = (2 ^ 54 - 1 : ℕ) * 2 ^ (970 : ℤ) := by
  rw [overflow, Nat.cast_mul, zpow_ofNat, Nat.cast_pow, Nat.cast_ofNat]

section

variable {m t : Nat} {e : Int}

/-- A number below the middle has no exponent above that of the greatest one. -/
theorem add_le_of_lt_overflow (hm : 2 ^ (52 + t) ≤ m) (h : (m : ℚ) * 2 ^ e < overflow) :
    e + t ≤ 971 := by
  by_contra hlt
  have hlarge : (2 : ℚ) ^ (1024 : ℤ) ≤ m * 2 ^ e :=
    calc (2 : ℚ) ^ (1024 : ℤ) ≤ 2 ^ ((52 + t : ℕ) + e) :=
        zpow_le_zpow_right₀ (by norm_num) (by omega)
      _ = 2 ^ (52 + t) * 2 ^ e := by rw [zpow_add₀ two_ne_zero, zpow_natCast]
      _ ≤ m * 2 ^ e :=
        mul_le_mul_of_nonneg_right (by exact_mod_cast hm) (zpow_pos two_pos e).le
  have hpower : (overflow : ℚ) ≤ 2 ^ (1024 : ℤ) := by
    rw [cast_overflow, show (1024 : ℤ) = 54 + 970 from rfl, zpow_add₀ two_ne_zero]
    exact mul_le_mul_of_nonneg_right (by norm_num) (zpow_pos two_pos _).le
  exact absurd (hlarge.trans_lt h) hpower.not_gt

/-- With the exponent of the greatest number, rounding makes the mantissa no longer. -/
theorem rounded_lt (hm : m < 2 ^ (53 + t)) (hexcess : excess m e = t)
    (h : (m : ℚ) * 2 ^ e < overflow) (he : e + t = 971) : rounded m e .exact < 2 ^ 53 := by
  rw [rounded, hexcess]
  cases t with
  | zero => exact hm
  | succ k =>
    have hlt : m < (2 ^ 54 - 1) * 2 ^ k := by
      have hk : (970 : ℤ) = k + e := by omega
      have hcast : (m : ℚ) * 2 ^ e < ((2 ^ 54 - 1) * 2 ^ k : ℕ) * 2 ^ e := by
        refine h.trans_eq ?_
        rw [cast_overflow, hk, zpow_add₀ two_ne_zero, zpow_natCast, Nat.cast_mul, Nat.cast_pow,
          Nat.cast_ofNat, mul_assoc]
      exact Nat.cast_lt.mp (lt_of_mul_lt_mul_right hcast (zpow_pos two_pos e).le)
    have hle := roundedMantissa_shiftRight_succ_le (.ofMantissaAndAccuracy m .exact) k
    have hdiv := (Nat.div_lt_iff_lt_mul (Nat.two_pow_pos k)).mpr hlt
    rw [mantissa_ofMantissaAndAccuracy] at hle
    omega

/-- Rounding adds at most a half of the last place. -/
theorem rounded_value_le (hm : 2 ^ (52 + t) ≤ m) (hexcess : excess m e = t) :
    (rounded m e .exact : ℚ) * 2 ^ (e + t) ≤ m * 2 ^ e * (1 + 1 / 2 ^ 53) := by
  have hdiv : ((m / 2 ^ 53 : ℕ) : ℚ) ≤ m / 2 ^ 53 := by exact_mod_cast Nat.cast_div_le
  have hle : (rounded m e .exact : ℚ) * 2 ^ t ≤ m + (m / 2 ^ 53 : ℕ) := by
    exact_mod_cast rounded_mul_le hexcess hm
  calc (rounded m e .exact : ℚ) * 2 ^ (e + t) = rounded m e .exact * 2 ^ t * 2 ^ e := by
        rw [zpow_add₀ two_ne_zero, zpow_natCast]
        ring
    _ ≤ (m + m / 2 ^ 53) * 2 ^ e :=
      mul_le_mul_of_nonneg_right (hle.trans (by linarith)) (zpow_pos two_pos e).le
    _ = m * 2 ^ e * (1 + 1 / 2 ^ 53) := by ring

/-- A mantissa that has all its bits, of a number below the middle between the greatest one and the
next power of two, is rounded to a number, and up by at most a half of its last place. -/
theorem exists_rounded (s : Sign) (hm : 2 ^ 52 ≤ m) (he : -1074 ≤ e)
    (h : (m : ℚ) * 2 ^ e < overflow) :
    ∃ m' e' hm', roundWithAccuracy Format.binary64 s m e .exact = .finite s m' e' hm' ∧
      m'.log2 = 52 ∧ e' ≤ 971 ∧ totalExponent m e ≤ totalExponent m' e' ∧
      (m' : ℚ) * 2 ^ e' ≤ m * 2 ^ e * (1 + 1 / 2 ^ 53) := by
  have hpos : m ≠ 0 := by omega
  obtain ⟨t, ht⟩ : ∃ t, m.log2 = 52 + t := Nat.exists_eq_add_of_le ((Nat.le_log2 hpos).mpr hm)
  have hself : 2 ^ (52 + t) ≤ m := ht ▸ Nat.log2_self_le hpos
  have hlt : m < 2 ^ (53 + t) := (Nat.log2_lt hpos).mp (by omega)
  have hexcess : excess m e = t := by
    rw [excess, totalExponent]
    omega
  have hexponent := add_le_of_lt_overflow hself h
  have hcarry := rounded_lt hlt hexcess h
  have hvalue := rounded_value_le hself hexcess
  have hge := le_rounded hexcess hself
  have hround := roundWithAccuracy_eq s m e .exact
  rw [dif_neg (by omega), hexcess] at hround
  split at hround
  next hlong =>
    refine ⟨_, _, _, hround, Nat.log2_two_pow (n := 52), by omega, ?_, ?_⟩
    · rw [totalExponent, totalExponent, Nat.log2_two_pow (n := 52)]
      omega
    · rw [hlong] at hvalue
      refine hvalue.trans' (le_of_eq ?_)
      rw [zpow_add_one₀ two_ne_zero]
      push_cast
      ring
  next hshort =>
    have hlog : (rounded m e .exact).log2 = 52 :=
      (Nat.log2_eq_iff (by omega)).mpr ⟨hge, Nat.lt_of_le_of_ne (rounded_le ..) hshort⟩
    refine ⟨_, _, _, hround, hlog, hexponent, ?_, hvalue⟩
    rw [totalExponent, totalExponent, hlog]
    omega

end

/-! ## Bits -/

/-- What a sign, an exponent and a mantissa stand for. -/
theorem unpack_packComponents (s : Sign) (e : BitVec 11) (m : BitVec 52) :
    UnpackedFloat.unpack Format.binary64 (packComponents Format.binary64 s e m) =
      if e = -1#11 then if m = 0#52 then .infinity s else .notANumber
      else if e = 0#11 then
        if h : m = 0#52 then .zero s
        else .finite s m.toNat (-1074) (by simpa [BitVec.toNat_pos, BitVec.pos_iff_ne_zero] using h)
      else .finite s (2 ^ 52 + m.toNat) (e.toNat - 1075) (by omega) := by
  have hone : (1#1 ++ m).toNat = 2 ^ 52 + m.toNat := by
    rw [BitVec.toNat_append, ← Nat.shiftLeft_add_eq_or_of_lt m.isLt]
    rfl
  unfold UnpackedFloat.unpack
  simp only [unpackMantissa_packComponents, unpackExponent_packComponents,
    unpackSign_packComponents, Sign.ofBitVec_toBitVec, hone]
  split
  · rfl
  split
  next hzero =>
    subst hzero
    rfl
  · rfl

theorem isFinite_unpack_packComponents (s : Sign) (e : BitVec 11) (m : BitVec 52) :
    (UnpackedFloat.unpack Format.binary64 (packComponents Format.binary64 s e m)).isFinite =
      decide (e ≠ -1#11) := by
  rw [unpack_packComponents]
  split
  next he =>
    rw [decide_eq_false (not_not.mpr he)]
    split <;> rfl
  next he =>
    rw [decide_eq_true he]
    split
    · split <;> rfl
    · rfl

section

variable {s : Sign} {m : Nat} {e : Int} {hm : 0 < m}

/-- The exponent as it is stored. -/
def biased (e : Int) : Nat := (e + 1075).toNat

theorem pack_finite : UnpackedFloat.pack Format.binary64 (.finite s m e hm) =
    if 2 ^ 11 ≤ biased e + 1 then packedInfinity Format.binary64 s
    else if m.log2 = 52 then
      packComponents Format.binary64 s (BitVec.ofNat 11 (biased e)) (BitVec.ofNat 52 m)
    else packComponents Format.binary64 s 0#11 (BitVec.ofNat 52 m) := by
  have hlog : (m.log2 + 1 = Format.binary64.mantissaBits) ↔ m.log2 = 52 :=
    show m.log2 + 1 = 53 ↔ _ by omega
  have hbiased : (e + Format.binary64.exponentBias +
      Format.binary64.mantissaBitsWithoutImplicit).toNat = biased e := by
    show (e + (1023 : Nat) + (52 : Nat)).toNat = (e + 1075).toNat
    omega
  unfold UnpackedFloat.pack
  simp only [hlog, hbiased]

theorem ofNat_biased_ne {v : BitVec 11} (h : biased e < 2 ^ 11) (hne : biased e ≠ v.toNat) :
    BitVec.ofNat 11 (biased e) ≠ v := by
  rintro rfl
  rw [BitVec.toNat_ofNat, Nat.mod_eq_of_lt h] at hne
  exact hne rfl

/-- A mantissa of 53 bits is stored as it is, but for its first bit. -/
theorem unpack_pack_finite (hl : m.log2 = 52) (he : -1074 ≤ e ∧ e ≤ 971) :
    (Float.Model.pack (.finite s m e hm)).unpack = .finite s m e hm := by
  have hlt : m < 2 ^ 53 := (Nat.log2_lt hm.ne').mp (by omega)
  have hle : 2 ^ 52 ≤ m := (Nat.le_log2 hm.ne').mp hl.ge
  have hbiased : 0 < biased e ∧ biased e < 2047 ∧ (biased e : Int) - 1075 = e := by
    rw [biased]
    omega
  have hunpack : (Float.Model.pack (.finite s m e hm)).unpack =
      UnpackedFloat.unpack Format.binary64
        (UnpackedFloat.pack Format.binary64 (.finite s m e hm)) := rfl
  have hnat : (BitVec.ofNat 11 (biased e)).toNat = biased e := by
    rw [BitVec.toNat_ofNat, Nat.mod_eq_of_lt (by omega)]
  have hmod : 2 ^ 52 + m % 2 ^ 52 = m := by omega
  have hmax : biased e ≠ (-1#11).toNat := hbiased.2.1.ne
  have hmin : biased e ≠ (0#11).toNat := hbiased.1.ne'
  rw [hunpack, pack_finite, if_neg (by omega), if_pos hl, unpack_packComponents,
    if_neg (ofNat_biased_ne (by omega) hmax), if_neg (ofNat_biased_ne (by omega) hmin)]
  simp only [hnat, BitVec.toNat_ofNat, hmod, hbiased]

/-- A number is stored as a number, or as an infinity if it is too large. -/
theorem isFinite_pack_finite :
    (Float.Model.pack (.finite s m e hm)).isFinite = decide (e ≤ 971) := by
  have hunpack : (Float.Model.pack (.finite s m e hm)).isFinite =
      (UnpackedFloat.unpack Format.binary64
        (UnpackedFloat.pack Format.binary64 (.finite s m e hm))).isFinite := rfl
  have hbiased : 2 ^ 11 ≤ biased e + 1 ↔ ¬ e ≤ 971 := by
    rw [biased]
    omega
  rw [hunpack, pack_finite]
  split
  next h =>
    rw [decide_eq_false (hbiased.mp h), packedInfinity, isFinite_unpack_packComponents]
    rfl
  next h =>
    rw [decide_eq_true (not_not.mp (mt hbiased.mpr h))]
    split
    · have hmax : biased e < (-1#11).toNat := show biased e < 2047 by omega
      rw [isFinite_unpack_packComponents]
      exact decide_eq_true (ofNat_biased_ne (by omega) hmax.ne)
    · rw [isFinite_unpack_packComponents]
      rfl

theorem isInf_pack_finite (h : e ≤ 971) :
    (Float.Model.pack (.finite s m e hm)).isInf = false := by
  have hfinite : (Float.Model.pack (.finite s m e hm)).unpack.isFinite = true :=
    isFinite_pack_finite.trans (decide_eq_true h)
  unfold Float.Model.isInf
  generalize (Float.Model.pack (.finite s m e hm)).unpack = u at hfinite ⊢
  cases u <;> first | rfl | cases hfinite

theorem isInf_pack_of_lt (h : 971 < e) : (Float.Model.pack (.finite s m e hm)).isInf = true := by
  have hunpack : (Float.Model.pack (.finite s m e hm)).isInf =
      (UnpackedFloat.unpack Format.binary64
        (UnpackedFloat.pack Format.binary64 (.finite s m e hm))).isInf := rfl
  rw [hunpack, pack_finite, if_pos (by rw [biased]; omega), packedInfinity, unpack_packComponents]
  rfl

end

end Rill.Number
