import Rill.Proofs.Number.Rounding

/-!
# Numbers that stay finite

A product of finite numbers is finite or an infinity (`isFinite_mul`), and a quotient by a power of
ten is finite (`isFinite_div_powerOfTen`), so that a decimal is read as a finite number or not at
all (`isFinite_ofDecimal?`). What is stored of a finite number is within the bounds of
`magnitude_bounds`.

A decimal is read where its power of ten is negative (`scale_of_neg`), and where it is not above the
middle between the second and the third greatest number (`scale_of_le`): the significand, the power
and their product are each rounded up by at most a half of the last place.
-/

namespace Rill.Number

open Float.Model Float.Model.UnpackedFloat

variable {x y : Float} {s : Sign} {m : Nat} {e : Int} {hm : 0 < m}

theorem isFinite_cases {u : UnpackedFloat} (h : u.isFinite = true) :
    (∃ s, u = .zero s) ∨ ∃ s m e hm, u = .finite s m e hm := by
  cases u with
  | infinity s => cases h
  | notANumber => cases h
  | zero s => exact .inl ⟨s, rfl⟩
  | finite s m e hm => exact .inr ⟨s, m, e, hm, rfl⟩

theorem isFinite_of_unpack (h : x.toModel.unpack = .finite s m e hm) : x.isFinite = true := by
  unfold Float.isFinite Float.Model.isFinite
  rw [h]
  rfl

/-- The greatest stored exponent is that of no number. -/
theorem unpackExponent_lt {b : BitVec Format.binary64.numBits} (h : unpackExponent b ≠ -1#11) :
    (unpackExponent b).toNat < 2047 :=
  Nat.lt_of_le_of_ne (Nat.le_of_lt_succ (BitVec.isLt _)) fun hmax => h (BitVec.eq_of_toNat_eq hmax)

theorem bounds_of_unpack (h : x.toModel.unpack = .finite s m e hm) : m < 2 ^ 53 ∧ e ≤ 971 := by
  unfold Float.Model.unpack UnpackedFloat.unpack at h
  dsimp only at h
  have hbias : (Format.binary64.exponentBias : Int) + (52 : Nat) = 1075 := rfl
  split at h
  · split at h <;> cases h
  next he =>
    have hexponent := unpackExponent_lt he
    split at h
    next hzero =>
      split at h
      · cases h
      · obtain ⟨-, rfl, rfl⟩ := UnpackedFloat.finite.inj h
        exact ⟨(BitVec.isLt _).trans (by decide), by rw [hzero]; decide⟩
    · obtain ⟨-, rfl, rfl⟩ := UnpackedFloat.finite.inj h
      exact ⟨BitVec.isLt _, by omega⟩

/-! ## Magnitudes -/

theorem toNat_unpackExponent (b : BitVec Format.binary64.numBits) :
    (unpackExponent b).toNat = b.toNat / 2 ^ 52 % 2 ^ 11 := by
  unfold unpackExponent
  rw [BitVec.toNat_cast, BitVec.extractLsb_toNat, Nat.shiftRight_eq_div_pow]
  rfl

theorem exponent_lt (h : x.isFinite = true) : x.toBits.toNat / 2 ^ 52 % 2 ^ 11 < 2047 := by
  unfold Float.isFinite Float.Model.isFinite Float.Model.unpack UnpackedFloat.unpack at h
  dsimp only at h
  split at h
  · split at h <;> cases h
  next hne =>
    have hlt := unpackExponent_lt hne
    rwa [toNat_unpackExponent] at hlt

theorem magnitude_bounds (h : x.isFinite = true) :
    (magnitude x).1 < 2 ^ 53 ∧ -1074 ≤ (magnitude x).2 ∧ (magnitude x).2 ≤ 971 := by
  have hexponent := exponent_lt h
  unfold magnitude
  dsimp only
  split
  · dsimp only
    omega
  · dsimp only
    omega

/-! ## Products and quotients -/

theorem isFinite_roundWithAccuracy (s : Sign) (m : Nat) (e : Int) (acc : Accuracy) :
    (roundWithAccuracy Format.binary64 s m e acc).isFinite = true := by
  rw [roundWithAccuracy_eq]
  split
  · rfl
  · split <;> rfl

theorem isFinite_pack_zero (s : Sign) : (Float.Model.pack (.zero s)).isFinite = true := by
  cases s <;> rfl

theorem isFinite_pack {u : UnpackedFloat} (hu : u.isFinite = true)
    (h : (Float.Model.pack u).isInf = false) : (Float.Model.pack u).isFinite = true := by
  cases u with
  | infinity s => cases hu
  | notANumber => cases hu
  | zero s => exact isFinite_pack_zero s
  | finite s m e hm =>
    by_cases he : e ≤ 971
    · exact isFinite_pack_finite.trans (decide_eq_true he)
    · rw [isInf_pack_of_lt (by omega)] at h
      cases h

theorem isFinite_pack_roundWithAccuracy {s : Sign} {m : Nat} {e : Int} {acc : Accuracy}
    (he : e ≤ 970) (h : totalExponent m e ≤ 1023) :
    (Float.Model.pack (roundWithAccuracy Format.binary64 s m e acc)).isFinite = true := by
  have hexcess : e + excess m e ≤ 970 := by
    rw [excess]
    omega
  rw [roundWithAccuracy_eq]
  split
  · exact isFinite_pack_zero s
  · split <;> exact isFinite_pack_finite.trans (decide_eq_true (by omega))

theorem isFinite_neg (hx : x.isFinite = true) : (-x).isFinite = true := by
  have hneg : (-x).toModel = Float.Model.pack (UnpackedFloat.neg x.toModel.unpack) := rfl
  unfold Float.isFinite
  rw [hneg]
  obtain ⟨s', hu⟩ | ⟨s', m', e', hm', hu⟩ := isFinite_cases hx
  · rw [hu]
    exact isFinite_pack_zero _
  · rw [hu]
    exact isFinite_pack_finite.trans (decide_eq_true (bounds_of_unpack hu).2)

theorem isFinite_mul (hx : x.isFinite = true) (hy : y.isFinite = true)
    (h : (x * y).isInf = false) : (x * y).isFinite = true := by
  have hprod (u v : UnpackedFloat) (hu : u.isFinite = true) (hv : v.isFinite = true) :
      (UnpackedFloat.mul Format.binary64 u v).isFinite = true := by
    obtain ⟨s, rfl⟩ | ⟨s, m, e, hm, rfl⟩ := isFinite_cases hu <;>
      obtain ⟨s', rfl⟩ | ⟨s', m', e', hm', rfl⟩ := isFinite_cases hv
    · rfl
    · rfl
    · rfl
    · exact isFinite_roundWithAccuracy ..
  exact isFinite_pack (hprod _ _ hx hy) h

theorem isInf_mul {s' : Sign} {m' : Nat} {e' : Int} {hm' : 0 < m'}
    (hx : x.toModel.unpack = .finite s m e hm) (hy : y.toModel.unpack = .finite s' m' e' hm')
    (hlong : 2 ^ 52 ≤ m * m') (he : -1074 ≤ e + e')
    (h : (m : ℚ) * 2 ^ e * (m' * 2 ^ e') < overflow) :
    (x * y).isInf = false := by
  have hmul : (x * y).toModel =
      Float.Model.pack (UnpackedFloat.mul Format.binary64 x.toModel.unpack y.toModel.unpack) := rfl
  have hexact : ((m * m' : ℕ) : ℚ) * 2 ^ (e + e') = m * 2 ^ e * (m' * 2 ^ e') := by
    rw [zpow_add₀ two_ne_zero]
    push_cast
    ring
  obtain ⟨_, _, _, hround, -, hle, -⟩ := exists_rounded (s * s') hlong he (hexact.trans_lt h)
  have hproduct :
      UnpackedFloat.mul Format.binary64 (.finite s m e hm) (.finite s' m' e' hm') = _ := hround
  unfold Float.isInf
  rw [hmul, hx, hy, hproduct]
  exact isInf_pack_finite hle

theorem log2_shiftLeft_div_le (m₁ : Nat) {m₂ : Nat} (h₂ : 0 < m₂) (k : Nat) :
    m₁ <<< k / m₂ = 0 ∨ (m₁ <<< k / m₂).log2 + m₂.log2 ≤ m₁.log2 + k := by
  refine (Nat.eq_zero_or_pos _).imp_right fun hpos => ?_
  have hprod : 2 ^ ((m₁ <<< k / m₂).log2 + m₂.log2) < 2 ^ (m₁.log2 + 1 + k) :=
    calc 2 ^ ((m₁ <<< k / m₂).log2 + m₂.log2)
        = 2 ^ (m₁ <<< k / m₂).log2 * 2 ^ m₂.log2 := Nat.pow_add ..
      _ ≤ m₁ <<< k / m₂ * m₂ :=
        Nat.mul_le_mul (Nat.log2_self_le hpos.ne') (Nat.log2_self_le h₂.ne')
      _ ≤ m₁ * 2 ^ k := Nat.shiftLeft_eq m₁ k ▸ Nat.div_mul_le_self ..
      _ < 2 ^ (m₁.log2 + 1) * 2 ^ k :=
        Nat.mul_lt_mul_of_pos_right Nat.lt_log2_self (Nat.two_pow_pos k)
      _ = 2 ^ (m₁.log2 + 1 + k) := (Nat.pow_add ..).symm
  have hlt := (Nat.pow_lt_pow_iff_right (by decide)).mp hprod
  omega

/-- A quotient has no more bits before the point than its operands say. -/
theorem totalExponent_divCore {m₁ m₂ : Nat} {e₁ e₂ : Int} (h₂ : 0 < m₂)
    (h : totalExponent m₁ e₁ - totalExponent m₂ e₂ ≤ 1020) :
    (divCore Format.binary64 m₁ e₁ m₂ e₂).2.1 ≤ 970 ∧
      totalExponent (divCore Format.binary64 m₁ e₁ m₂ e₂).1
        (divCore Format.binary64 m₁ e₁ m₂ e₂).2.1 ≤ 1023 := by
  generalize ht : min (e₁ - e₂)
    (max (totalExponent m₁ e₁ - totalExponent m₂ e₂ - 53) (-1074)) = t
  have hcore : divCore Format.binary64 m₁ e₁ m₂ e₂ = (m₁ <<< (e₁ - e₂ - t).toNat / m₂, t,
      accuracyOfFraction (m₁ <<< (e₁ - e₂ - t).toNat % m₂) m₂) := by
    subst ht
    rfl
  rw [hcore]
  have hlog := log2_shiftLeft_div_le m₁ h₂ (e₁ - e₂ - t).toNat
  simp only [totalExponent] at h ht ⊢
  rcases hlog with hzero | hlog
  · rw [hzero, Nat.log2_zero]
    omega
  · omega

theorem isFinite_div (hx : x.isFinite = true) (hy : y.toModel.unpack = .finite s m e hm)
    (h : 4 ≤ totalExponent m e) : (x / y).isFinite = true := by
  have hdiv : (x / y).toModel =
      Float.Model.pack (UnpackedFloat.div Format.binary64 x.toModel.unpack y.toModel.unpack) := rfl
  unfold Float.isFinite
  rw [hdiv, hy]
  obtain ⟨s', hu⟩ | ⟨s', m', e', hm', hu⟩ := isFinite_cases hx
  · rw [hu]
    exact isFinite_pack_zero _
  · have hb := bounds_of_unpack hu
    have hlog : m'.log2 < 53 := (Nat.log2_lt hm'.ne').mpr hb.1
    have ht : totalExponent m' e' - totalExponent m e ≤ 1020 := by
      rw [totalExponent]
      omega
    obtain ⟨hle, htotal⟩ := totalExponent_divCore hm ht
    rw [hu]
    exact isFinite_pack_roundWithAccuracy hle htotal

/-! ## Natural numbers and powers of ten -/

/-- A natural number, or a power of ten, is stored as its nearest number. -/
theorem exists_stored {n k : Nat} (hlog : 52 ≤ n.log2 + k) (hk : k ≤ 53) (hpos : 0 < n)
    (h : n < overflow) :
    ∃ m e hm, (Float.Model.pack (roundWithAccuracy Format.binary64 .positive (n * 2 ^ k)
        (-(k : Int)) .exact)).unpack = .finite .positive m e hm ∧ 2 ^ 52 ≤ m ∧ -52 ≤ e ∧
      n.log2 + 1 ≤ totalExponent m e ∧ (m : ℚ) * 2 ^ e ≤ n * (1 + 1 / 2 ^ 53) := by
  have hexact : ((n * 2 ^ k : ℕ) : ℚ) * 2 ^ (-(k : Int)) = n := by
    rw [zpow_neg, zpow_natCast, Nat.cast_mul, Nat.cast_pow, Nat.cast_ofNat]
    exact mul_inv_cancel_right₀ (pow_ne_zero k two_ne_zero) _
  have hlong : 2 ^ 52 ≤ n * 2 ^ k :=
    calc 2 ^ 52 ≤ 2 ^ (n.log2 + k) := Nat.pow_le_pow_right (by decide) hlog
      _ ≤ n * 2 ^ k := by
        rw [Nat.pow_add]
        exact Nat.mul_le_mul_right _ (Nat.log2_self_le hpos.ne')
  obtain ⟨m, e, hm, hround, hm52, hle, htotal, hvalue⟩ :=
    exists_rounded .positive hlong (by omega) (hexact.trans_lt (Nat.cast_lt.mpr h))
  rw [hexact] at hvalue
  have hbits : n.log2 + k ≤ (n * 2 ^ k).log2 := by
    rw [Nat.le_log2 (Nat.mul_pos hpos (Nat.two_pow_pos k)).ne', Nat.pow_add]
    exact Nat.mul_le_mul_right _ (Nat.log2_self_le hpos.ne')
  have htotal' : n.log2 + 1 ≤ totalExponent m e := by
    rw [totalExponent] at htotal
    omega
  have he : -52 ≤ e := by
    rw [totalExponent, hm52] at htotal'
    omega
  rw [hround]
  exact ⟨m, e, hm, unpack_pack_finite hm52 ⟨by omega, hle⟩, hm52 ▸ Nat.log2_self_le hm.ne', he,
    htotal', hvalue⟩

/-- The mantissa of a natural number is filled up to 53 bits. -/
theorem toModel_toFloat {n : Nat} (hpos : 0 < n) (hlt : n < 2 ^ 64) :
    n.toUInt64.toFloat.toModel = Float.Model.pack (roundWithAccuracy Format.binary64 .positive
      (n * 2 ^ (52 - n.log2)) (-(52 - n.log2 : Nat)) .exact) := by
  have hmod : n.toUInt64.toNat = n := by
    rw [Nat.toUInt64, UInt64.toNat_ofNat']
    exact Nat.mod_eq_of_lt hlt
  have hfloat : n.toUInt64.toFloat.toModel =
      Float.Model.pack (UnpackedFloat.normalize Format.binary64 n.toUInt64.toNat 0 .positive) := rfl
  have hcompare : compare (n : Int) 0 = .gt := Int.compare_eq_gt.mpr (Int.natCast_pos.mpr hpos)
  have hround : UnpackedFloat.round Format.binary64 .positive n 0 =
      roundWithAccuracy Format.binary64 .positive
        (n <<< (0 - max (totalExponent n 0 - 53) (-1074)).toNat)
        (0 - ((0 - max (totalExponent n 0 - 53) (-1074)).toNat : Int)) .exact := rfl
  have hshift : (0 - max (totalExponent n 0 - 53) (-1074)).toNat = 52 - n.log2 := by
    rw [totalExponent]
    omega
  rw [hfloat, hmod]
  unfold UnpackedFloat.normalize
  simp only [hcompare, Int.toNat_natCast]
  rw [hround, hshift, Int.zero_sub, Nat.shiftLeft_eq]

theorem exists_toFloat {n : Nat} (hpos : 0 < n) (hlt : n < 2 ^ 64) :
    ∃ m e hm, n.toUInt64.toFloat.toModel.unpack = .finite .positive m e hm ∧ 2 ^ 52 ≤ m ∧
      -52 ≤ e ∧ (m : ℚ) * 2 ^ e ≤ n * (1 + 1 / 2 ^ 53) := by
  have hn : n < overflow := hlt.trans (by decide +kernel)
  obtain ⟨m, e, hm, hu, hlong, he, -, hvalue⟩ :=
    exists_stored (k := 52 - n.log2) (by omega) (by omega) hpos hn
  exact ⟨m, e, hm, by rw [toModel_toFloat hpos hlt, hu], hlong, he, hvalue⟩

theorem isFinite_toFloat (n : UInt64) : n.toFloat.isFinite = true := by
  rcases Nat.eq_zero_or_pos n.toNat with hzero | hpos
  · obtain rfl : n = 0 := UInt64.toNat_inj.mp hzero
    decide
  · obtain ⟨_, _, _, hu, -⟩ := exists_toFloat hpos n.toNat_lt
    rw [Nat.toUInt64, UInt64.ofNat_toNat] at hu
    exact isFinite_of_unpack hu

/-- Up to `10 ^ 22` these come from a table. -/
theorem toModel_powerOfTen (k : Nat) : (powerOfTen k).toModel = Float.Model.ofScientific 1 k := by
  by_cases hk : k ≤ 22
  · have htable : ∀ k ≤ 22, (powerOfTen k).toModel = Float.Model.ofScientific 1 k := by
      decide +kernel
    exact htable k hk
  · unfold powerOfTen Float.ofScientific
    rw [dif_neg (by omega)]
    rfl

theorem exists_powerOfTen {k : Nat} (hk : k ≤ 308) :
    ∃ m e hm, (powerOfTen k).toModel.unpack = .finite .positive m e hm ∧ 2 ^ 52 ≤ m ∧ -52 ≤ e ∧
      (10 ^ k).log2 + 1 ≤ totalExponent m e ∧ (m : ℚ) * 2 ^ e ≤ 10 ^ k * (1 + 1 / 2 ^ 53) := by
  have hlt : 10 ^ k < overflow :=
    (Nat.pow_le_pow_right (by decide) hk).trans_lt (by decide +kernel)
  have hround : UnpackedFloat.ofScientific Format.binary64 1 k =
      roundWithAccuracy Format.binary64 .positive (10 ^ k * 2 ^ 53) (-(53 : Nat)) .exact := by
    have hspec : (2 : Int) ^ Format.binary64.exponentBits = 2048 := rfl
    unfold UnpackedFloat.ofScientific
    rw [dif_neg (by decide), if_neg (by omega), if_neg (by omega), if_pos (by omega)]
    rw [Nat.mul_comm (10 ^ k)]
    rfl
  obtain ⟨m, e, hm, hu, hlong, he, htotal, hvalue⟩ :=
    exists_stored (k := 53) (by omega) (by omega) (Nat.pow_pos (by decide)) hlt
  refine ⟨m, e, hm, ?_, hlong, he, htotal, by exact_mod_cast hvalue⟩
  rw [toModel_powerOfTen, Float.Model.ofScientific, hround, hu]

theorem isFinite_powerOfTen {k : Nat} (hk : k ≤ 308) : (powerOfTen k).isFinite = true := by
  obtain ⟨_, _, _, hu, -⟩ := exists_powerOfTen hk
  exact isFinite_of_unpack hu

/-- Dividing by a power of ten leads to no infinity. -/
theorem isFinite_div_powerOfTen {k : Nat} (hx : x.isFinite = true) (hk : 0 < k) (hk' : k ≤ 308) :
    (x / powerOfTen k).isFinite = true := by
  obtain ⟨_, _, _, hu, -, -, htotal, -⟩ := exists_powerOfTen hk'
  refine isFinite_div hx hu (Int.le_trans ?_ htotal)
  have hten : 2 ^ 3 ≤ 10 ^ k := (Nat.pow_le_pow_right (by decide) hk).trans' (by decide)
  have hlog := (Nat.le_log2 (Nat.pow_pos (by decide)).ne').mpr hten
  omega

/-! ## Decimals -/

theorem isFinite_scale {fuel : Nat} {f r : Float} {e : Int} (hf : f.isFinite = true)
    (h : scale fuel f e = some r) : r.isFinite = true := by
  induction fuel generalizing f e with
  | zero =>
    cases h
    exact hf
  | succ fuel ih =>
    unfold scale at h
    split at h
    next hle =>
      split at h
      · dsimp only at h
        split at h
        · cases h
        next hinf =>
          cases h
          exact isFinite_mul hf (isFinite_powerOfTen hle) (Bool.not_eq_true _ ▸ hinf)
      · cases h
        exact isFinite_div_powerOfTen hf (by omega) hle
    next hlt =>
      split at h
      · cases h
        exact hf
      · split at h
        · cases h
        · exact ih (isFinite_div_powerOfTen hf (by decide) (le_refl _)) h

/-- What a decimal is read as is a number. -/
theorem isFinite_ofDecimal? {negative : Bool} {significand : Nat} {e : Int}
    (h : ofDecimal? negative significand e = some x) : x.isFinite = true := by
  obtain ⟨f, hf, rfl⟩ := Option.map_eq_some_iff.mp h
  have hfinite := isFinite_scale (isFinite_toFloat _) hf
  split
  · exact isFinite_neg hfinite
  · exact hfinite

/-- A division gives no infinity. -/
theorem scale_of_neg {fuel : Nat} {e : Int} (he : e < 0) (f : Float) :
    ∃ r, scale fuel f e = some r := by
  induction fuel generalizing f e with
  | zero => exact ⟨f, rfl⟩
  | succ fuel ih =>
    unfold scale
    split
    · rw [if_neg (by omega)]
      exact ⟨_, rfl⟩
    next hlt =>
      split
      · exact ⟨f, rfl⟩
      · rw [if_neg (by omega)]
        rw [maxPower] at hlt ⊢
        exact ih (by omega) _

/-- The middle between the second and the third greatest number. -/
def reachable : Nat := (2 ^ 54 - 5) * 2 ^ 970

theorem cast_reachable : (reachable : ℚ) = (2 ^ 54 - 5 : ℕ) * 2 ^ (970 : ℤ) := by
  rw [reachable, Nat.cast_mul, zpow_ofNat, Nat.cast_pow, Nat.cast_ofNat]

/-- A product with a power of ten is a number, unless it is one of the two greatest or more. -/
theorem scale_of_le {fuel n k : Nat} (hpos : 0 < n) (hlt : n < 2 ^ 64) (hk : k ≤ 308)
    (h : n * 10 ^ k ≤ reachable) : ∃ r, scale fuel n.toUInt64.toFloat k = some r := by
  cases fuel with
  | zero => exact ⟨_, rfl⟩
  | succ fuel =>
    obtain ⟨m, e, hm, hu, hlong, he, hvalue⟩ := exists_toFloat hpos hlt
    obtain ⟨m', e', hm', hu', hlong', he', -, hvalue'⟩ := exists_powerOfTen hk
    have hinf : (n.toUInt64.toFloat * powerOfTen k).isInf = false := by
      refine isInf_mul hu hu' ?_ (by omega) ?_
      · exact hlong.trans (Nat.le_mul_of_pos_right _ hm')
      · have hle : ((n * 10 ^ k : ℕ) : ℚ) ≤ reachable := Nat.cast_le.mpr h
        rw [Nat.cast_mul, Nat.cast_pow, Nat.cast_ofNat] at hle
        calc (m : ℚ) * 2 ^ e * (m' * 2 ^ e')
            ≤ n * (1 + 1 / 2 ^ 53) * (10 ^ k * (1 + 1 / 2 ^ 53)) :=
              mul_le_mul hvalue hvalue' (mul_nonneg (Nat.cast_nonneg _) (zpow_pos two_pos _).le)
                (mul_nonneg (Nat.cast_nonneg _) (by norm_num))
          _ = n * 10 ^ k * (1 + 1 / 2 ^ 53) ^ 2 := by ring
          _ ≤ reachable * (1 + 1 / 2 ^ 53) ^ 2 := mul_le_mul_of_nonneg_right hle (by norm_num)
          _ = (2 ^ 54 - 5 : ℕ) * (1 + 1 / 2 ^ 53) ^ 2 * 2 ^ (970 : ℤ) := by
            rw [cast_reachable]
            ring
          _ < (2 ^ 54 - 1 : ℕ) * 2 ^ (970 : ℤ) :=
            mul_lt_mul_of_pos_right (by norm_num) (zpow_pos two_pos _)
          _ = overflow := cast_overflow.symm
    unfold scale
    rw [if_pos (by rw [maxPower]; omega), if_pos (by omega)]
    simp only [Int.natAbs_natCast, hinf]
    exact ⟨_, rfl⟩

end Rill.Number
