import Mathlib.Algebra.Order.Field.Power
import Mathlib.Tactic.FieldSimp
import Mathlib.Tactic.Linarith
import Mathlib.Tactic.NormNum
import Mathlib.Tactic.Positivity
import Mathlib.Tactic.Ring
import Rill.Number.Shortest

/-!
# Seventeen digits are enough

The grid whose seventeenth digit is the last is finer than the interval that reads back as a stored
number (`grid_lt`), so that one of the two neighbours of the number on it lies in the interval
(`exists_nearestOnGrid`) and `shortest` takes a decimal from a grid, of at most seventeen digits and
at most half a place above the stored number (`shortest_spec`).

All is compared on the scale of a grid and a last place, on which both are whole (`Scale.le_iff`).
-/

namespace Rill.Number

variable {m below : Nat} {q k : Int} {d : Decimal}

/-! ## Digits -/

theorem lt_pow_digitCount (n : Nat) : n < 10 ^ digitCount n :=
  (Nat.length_toDigits_le_iff (by decide) Nat.length_toDigits_pos).mp (Nat.le_refl _)

theorem pow_digitCount_le {n : Nat} (h : 0 < n) : 10 ^ (digitCount n - 1) ≤ n := by
  rcases Nat.eq_zero_or_pos (digitCount n - 1) with hzero | hpos
  · rwa [hzero]
  · refine Nat.le_of_not_lt fun hlt => ?_
    have hle : digitCount n ≤ digitCount n - 1 :=
      (Nat.length_toDigits_le_iff (by decide) hpos).mpr hlt
    omega

theorem digitCount_pos (n : Nat) : 0 < digitCount n := Nat.length_toDigits_pos

/-- A power as a quotient of whole numbers. -/
theorem zpow_eq_div (b : Nat) (q : Int) : (b : ℚ) ^ q = b ^ q.toNat / b ^ (-q).toNat := by
  rcases Int.le_total 0 q with h | h
  · obtain ⟨n, rfl⟩ := Int.eq_ofNat_of_zero_le h
    simp
  · obtain ⟨n, hn⟩ := Int.eq_ofNat_of_zero_le (Int.neg_nonneg.mpr h)
    obtain rfl : q = -(n : Int) := by omega
    simp

/-- Where the first digit of a quotient of at least one stands. -/
theorem pow_digitCount_div {num den : Nat} (hden : 0 < den) (h : den ≤ num) :
    (10 : ℚ) ^ ((digitCount (num / den) : ℤ) - 1) * den ≤ num ∧
      num < (10 : ℚ) ^ ((digitCount (num / den) : ℤ) - 1 + 1) * den := by
  have hlow := pow_digitCount_le (Nat.div_pos h hden)
  have hhigh := lt_pow_digitCount (num / den)
  obtain ⟨c, hc⟩ := Nat.exists_eq_add_one.mpr (digitCount_pos (num / den))
  rw [hc] at hlow hhigh ⊢
  rw [Nat.add_sub_cancel, Nat.le_div_iff_mul_le hden] at hlow
  rw [Nat.div_lt_iff_lt_mul hden] at hhigh
  rw [show ((c + 1 : ℕ) : ℤ) - 1 = c by omega, ← Nat.cast_add_one, zpow_natCast, zpow_natCast]
  exact ⟨by exact_mod_cast hlow, by exact_mod_cast hhigh⟩

/-- Where the first digit of a quotient below one stands: its reciprocal is rounded up. -/
theorem pow_digitCount_inv {num den : Nat} (hnum : 0 < num) (h : num < den) :
    (10 : ℚ) ^ (-(digitCount ((den + num - 1) / num - 1) : ℤ)) * den ≤ num ∧
      num < (10 : ℚ) ^ (-(digitCount ((den + num - 1) / num - 1) : ℤ) + 1) * den := by
  have htwo : 2 ≤ (den + num - 1) / num := (Nat.le_div_iff_mul_le hnum).mpr (by omega)
  have hdiv := Nat.div_add_mod (den + num - 1) num
  have hmod := Nat.mod_lt (den + num - 1) hnum
  obtain ⟨c, hc⟩ := Nat.exists_eq_add_one.mpr (Nat.zero_lt_two.trans_le htwo)
  rw [hc, Nat.mul_add_one] at hdiv
  rw [hc, Nat.add_sub_cancel]
  have hlow := pow_digitCount_le (show 0 < c by omega)
  have hhigh := lt_pow_digitCount c
  obtain ⟨b, hb⟩ := Nat.exists_eq_add_one.mpr (digitCount_pos c)
  rw [hb] at hlow hhigh ⊢
  rw [Nat.add_sub_cancel] at hlow
  have hle : den ≤ num * 10 ^ (b + 1) :=
    calc den ≤ num * (c + 1) := by
          rw [Nat.mul_add_one]
          omega
      _ ≤ num * 10 ^ (b + 1) := Nat.mul_le_mul_left _ hhigh
  have hlt : num * 10 ^ b < den := (Nat.mul_le_mul_left _ hlow).trans_lt (by omega)
  constructor
  · rw [zpow_neg, zpow_natCast, inv_mul_le_iff₀ (by positivity), mul_comm]
    exact_mod_cast hle
  · rw [show -((b + 1 : ℕ) : ℤ) + 1 = -(b : ℤ) by omega, zpow_neg, zpow_natCast,
      lt_inv_mul_iff₀ (by positivity), mul_comm]
    exact_mod_cast hlt

/-- The first digit of `m · 2 ^ q` stands for a power of ten that is at most that. -/
theorem leadingPower_spec (hm : 0 < m) :
    (10 : ℚ) ^ leadingPower m q ≤ m * 2 ^ q ∧ m * 2 ^ q < (10 : ℚ) ^ (leadingPower m q + 1) := by
  have hnum : 0 < m * 2 ^ q.toNat := Nat.mul_pos hm (Nat.two_pow_pos _)
  have hden : 0 < 2 ^ (-q).toNat := Nat.two_pow_pos _
  have hvalue : (m : ℚ) * 2 ^ q = (m * 2 ^ q.toNat : ℕ) / (2 ^ (-q).toNat : ℕ) := by
    have hpower : (2 : ℚ) ^ q = _ := zpow_eq_div 2 q
    rw [hpower]
    push_cast
    ring
  have hdef : leadingPower m q = if 2 ^ (-q).toNat ≤ m * 2 ^ q.toNat then
      (digitCount (m * 2 ^ q.toNat / 2 ^ (-q).toNat) : Int) - 1
    else -(digitCount ((2 ^ (-q).toNat + m * 2 ^ q.toNat - 1) / (m * 2 ^ q.toNat) - 1) : Int) := rfl
  have hden' : (0 : ℚ) < (2 ^ (-q).toNat : ℕ) := Nat.cast_pos.mpr hden
  rw [hvalue, hdef, le_div_iff₀ hden', div_lt_iff₀ hden']
  split
  next hle => exact pow_digitCount_div hden hle
  next hlt => exact pow_digitCount_inv hnum (Nat.lt_of_not_le hlt)

/-! ## Grids -/

/-- What a decimal stands for. -/
def Decimal.value (d : Decimal) : ℚ := d.digits * 10 ^ d.exponent

/-- Both weights stand for the same measure. -/
theorem Scale.unit_mul (q k : Int) :
    ((Scale.of q k).unit : ℚ) * 10 ^ k = (Scale.of q k).grid * 2 ^ (q - 2) := by
  have hten : (10 : ℚ) ^ k = _ := zpow_eq_div 10 k
  have htwo : (2 : ℚ) ^ (q - 2) = _ := zpow_eq_div 2 (q - 2)
  rw [Int.neg_sub] at htwo
  rw [hten, htwo, Scale.of]
  simp only [Nat.pow_eq]
  push_cast
  field_simp

theorem Scale.unit_pos (q k : Int) : 0 < (Scale.of q k).unit :=
  Nat.mul_pos (Nat.pow_pos (by decide)) (Nat.pow_pos (by decide))

theorem Scale.grid_pos (q k : Int) : 0 < (Scale.of q k).grid :=
  Nat.mul_pos (Nat.pow_pos (by decide)) (Nat.pow_pos (by decide))

/-- So much reads back as `m · 2 ^ q`. -/
def Scale.Reads (s : Scale) (m below t : Nat) : Prop :=
  if m % 2 = 0 then (4 * m - below) * s.unit ≤ t ∧ t ≤ (4 * m + 2) * s.unit
  else (4 * m - below) * s.unit < t ∧ t < (4 * m + 2) * s.unit

instance (s : Scale) (m below t : Nat) : Decidable (s.Reads m below t) :=
  inferInstanceAs (Decidable (if m % 2 = 0 then _ ∧ _ else _ ∧ _))

theorem Scale.Reads.le {s : Scale} {t : Nat} (h : s.Reads m below t) :
    t ≤ (4 * m + 2) * s.unit := by
  unfold Scale.Reads at h
  split at h
  · exact h.2
  · exact h.2.le

/-- The steps of the grid at or below the stored number. -/
def Scale.steps (s : Scale) (m : Nat) : Nat := 4 * m * s.unit / s.grid

/-- Of two neighbours of which one reads back, one that does is taken. -/
theorem nearestOnGrid_eq (m below : Nat) (q k : Int) :
    ∃ preferDown : Prop, ∃ _ : Decidable preferDown,
      let s := Scale.of q k
      let t := s.steps m
      nearestOnGrid m q below k =
        if 0 < t ∧ s.Reads m below (t * s.grid) ∧
            (preferDown ∨ ¬ s.Reads m below ((t + 1) * s.grid)) then some ⟨t, k⟩
        else if s.Reads m below ((t + 1) * s.grid) then some ⟨t + 1, k⟩
        else none :=
  let s := Scale.of q k
  let down := 4 * m * s.unit - s.steps m * s.grid
  let up := (s.steps m + 1) * s.grid - 4 * m * s.unit
  ⟨down < up ∨ (down = up ∧ s.steps m % 2 = 0), inferInstance, rfl⟩

theorem nearestOnGrid_spec (h : nearestOnGrid m q below k = some d) :
    d.exponent = k ∧ 0 < d.digits ∧ d.digits ≤ (Scale.of q k).steps m + 1 ∧
      (Scale.of q k).Reads m below (d.digits * (Scale.of q k).grid) := by
  obtain ⟨_, _, heq⟩ := nearestOnGrid_eq m below q k
  rw [show nearestOnGrid m q below k = _ from heq] at h
  split at h
  next hdown =>
    cases h
    exact ⟨rfl, hdown.1, Nat.le_succ _, hdown.2.1⟩
  · split at h
    next hup =>
      cases h
      exact ⟨rfl, Nat.succ_pos _, Nat.le_refl _, hup⟩
    · cases h

/-- On a grid that is finer than the interval one neighbour reads back. -/
theorem exists_nearestOnGrid (hb : below ≤ 4 * m) (hsteps : 0 < (Scale.of q k).steps m)
    (h : (Scale.of q k).grid < (2 + below) * (Scale.of q k).unit) :
    ∃ d, nearestOnGrid m q below k = some d := by
  obtain ⟨_, _, heq⟩ := nearestOnGrid_eq m below q k
  rw [show nearestOnGrid m q below k = _ from heq]
  have hgrid := Scale.grid_pos q k
  have hunit := Scale.unit_pos q k
  generalize Scale.of q k = s at h hsteps hgrid hunit ⊢
  by_cases hup : s.Reads m below ((s.steps m + 1) * s.grid)
  · rw [if_pos hup]
    split <;> exact ⟨_, rfl⟩
  · have hdown : s.Reads m below (s.steps m * s.grid) := by
      have hle : s.steps m * s.grid ≤ 4 * m * s.unit := Nat.div_mul_le_self ..
      have hlt : 4 * m * s.unit < (s.steps m + 1) * s.grid :=
        Nat.lt_mul_of_div_lt (Nat.lt_succ_self _) hgrid
      have hlow : (4 * m - below) * s.unit + below * s.unit = 4 * m * s.unit := by
        rw [← Nat.add_mul, Nat.sub_add_cancel hb]
      have hhigh : (4 * m + 2) * s.unit = 4 * m * s.unit + 2 * s.unit := Nat.add_mul ..
      have hnext : (s.steps m + 1) * s.grid = s.steps m * s.grid + s.grid := Nat.add_one_mul ..
      rw [Nat.add_mul] at h
      unfold Scale.Reads at hup ⊢
      split at hup
      next heven =>
        rw [if_pos heven]
        omega
      next hodd =>
        rw [if_neg hodd]
        omega
    rw [if_pos ⟨hsteps, hdown, .inr hup⟩]
    exact ⟨_, rfl⟩

/-! ## The interval -/

/-- Steps of the grid and quarters of the last place are compared on the scale. -/
theorem Scale.le_iff (x y : Nat) : x * (Scale.of q k).grid ≤ y * (Scale.of q k).unit ↔
    (x : ℚ) * 10 ^ k ≤ y * 2 ^ (q - 2) := by
  have hunit : (0 : ℚ) < (Scale.of q k).unit := by exact_mod_cast Scale.unit_pos q k
  have hgrid : (x * (Scale.of q k).grid : ℚ) * 2 ^ (q - 2) = x * 10 ^ k * (Scale.of q k).unit := by
    rw [mul_assoc, ← Scale.unit_mul]
    ring
  have hcast : x * (Scale.of q k).grid ≤ y * (Scale.of q k).unit ↔
      (x * (Scale.of q k).grid : ℚ) ≤ y * (Scale.of q k).unit := by
    exact_mod_cast Iff.rfl
  rw [hcast, ← mul_le_mul_iff_left₀ (zpow_pos two_pos (q - 2)), hgrid, mul_right_comm (y : ℚ),
    mul_le_mul_iff_left₀ hunit]

theorem two_zpow (q : Int) : (2 : ℚ) ^ q = 4 * 2 ^ (q - 2) := by
  rw [zpow_sub₀ two_ne_zero]
  ring

/-- What is found on a grid is at most half a place more than the stored number. -/
theorem value_le (h : nearestOnGrid m q below k = some d) : d.value ≤ (m + 1 / 2) * 2 ^ q := by
  obtain ⟨rfl, -, -, hreads⟩ := nearestOnGrid_spec h
  calc d.value ≤ (4 * m + 2 : ℕ) * 2 ^ (q - 2) := (Scale.le_iff ..).mp hreads.le
    _ = (m + 1 / 2) * 2 ^ q := by
      rw [two_zpow q]
      push_cast
      ring

/-- Where `10 ^ k` is at most the stored number, there is a step of the grid below it. -/
theorem steps_pos (h : (10 : ℚ) ^ k ≤ m * 2 ^ q) : 0 < (Scale.of q k).steps m := by
  refine Nat.div_pos ?_ (Scale.grid_pos q k)
  rw [← Nat.one_mul (Scale.of q k).grid, Scale.le_iff, Nat.cast_one, one_mul]
  refine h.trans_eq ?_
  rw [two_zpow q]
  push_cast
  ring

theorem steps_lt {n : Nat} (h : (m : ℚ) * 2 ^ q < 10 ^ n * 10 ^ k) :
    (Scale.of q k).steps m < 10 ^ n := by
  rw [Scale.steps, Nat.div_lt_iff_lt_mul (Scale.grid_pos q k), ← not_le, Scale.le_iff, not_le]
  rw [two_zpow q] at h
  push_cast
  linarith

/-- A grid of seventeen digits is finer than the interval. -/
theorem grid_lt (h : (10 : ℚ) ^ k * 10 ^ 16 ≤ m * 2 ^ q) (hb : 4 * m < (2 + below) * 10 ^ 16) :
    (Scale.of q k).grid < (2 + below) * (Scale.of q k).unit := by
  have hle : 10 ^ 16 * (Scale.of q k).grid ≤ 4 * m * (Scale.of q k).unit := by
    rw [Scale.le_iff]
    rw [two_zpow q] at h
    push_cast
    linarith
  refine Nat.lt_of_mul_lt_mul_left (hle.trans_lt ?_)
  rw [← Nat.mul_assoc, Nat.mul_comm (10 ^ 16)]
  exact Nat.mul_lt_mul_of_pos_right hb (Scale.unit_pos q k)

/-! ## The first hit -/

theorem exists_hit {lead : Int} {fuel count n : Nat} (hn : count ≤ n ∧ n < count + fuel)
    (h : ∃ d, nearestOnGrid m q below (lead - (n - 1 : Nat)) = some d) :
    ∃ n' ≤ n, count ≤ n' ∧ nearestOnGrid m q below (lead - (n' - 1 : Nat)) =
      some (shortestFrom m q below lead fuel count) := by
  induction fuel generalizing count with
  | zero => omega
  | succ fuel ih =>
    rw [shortestFrom]
    cases hd : nearestOnGrid m q below (lead - (count - 1 : Nat)) with
    | some d => exact ⟨count, hn.1, Nat.le_refl _, hd⟩
    | none =>
      have hne : n ≠ count := by
        rintro rfl
        obtain ⟨d, hd'⟩ := h
        rw [hd] at hd'
        cases hd'
      have hrest : count + 1 ≤ n ∧ n < count + 1 + fuel := by omega
      obtain ⟨n', hle, hge, hhit⟩ := ih hrest
      exact ⟨n', hle, by omega, hhit⟩

/-- Without zeros at the end a decimal has the same value. -/
theorem stripped_spec (fuel : Nat) (d : Decimal) :
    (d.stripped fuel).value = d.value ∧ (d.stripped fuel).digits ≤ d.digits ∧
      (0 < d.digits → 0 < (d.stripped fuel).digits) ∧ d.exponent ≤ (d.stripped fuel).exponent := by
  induction fuel generalizing d with
  | zero => exact ⟨rfl, Nat.le_refl _, id, Int.le_refl _⟩
  | succ fuel ih =>
    rw [Decimal.stripped]
    split
    next hzero =>
      obtain ⟨hvalue, hle, hpos, hexponent⟩ := ih ⟨d.digits / 10, d.exponent + 1⟩
      refine ⟨hvalue.trans ?_, hle.trans (Nat.div_le_self ..), fun h => hpos ?_, ?_⟩
      · have hdigits : (d.digits : ℚ) = 10 * (d.digits / 10 : ℕ) := by
          exact_mod_cast (Nat.mul_div_cancel' (Nat.dvd_of_mod_eq_zero hzero.1)).symm
        rw [Decimal.value, Decimal.value, hdigits, zpow_add_one₀ (by norm_num)]
        ring
      · exact Nat.div_pos (Nat.le_of_dvd h (Nat.dvd_of_mod_eq_zero hzero.1)) (by decide)
      · exact Int.le_trans (by simp) hexponent
    · exact ⟨rfl, Nat.le_refl _, id, Int.le_refl _⟩

/-- Seventeen digits are enough: the shortest decimal has no more, and is at most half a place more
than the stored number. -/
theorem shortest_spec (hm : 0 < m) (hlt : m < 2 ^ 53) :
    (shortest m q).value ≤ (m + 1 / 2) * 2 ^ q ∧ 0 < (shortest m q).digits ∧
      (shortest m q).digits ≤ 10 ^ 17 ∧ leadingPower m q - 16 ≤ (shortest m q).exponent := by
  obtain ⟨hlow, hhigh⟩ := leadingPower_spec (q := q) hm
  obtain ⟨below, hshortest, hb, hb'⟩ : ∃ below, shortest m q =
      (shortestFrom m q below (leadingPower m q) 17 1).stripped
        (digitCount (shortestFrom m q below (leadingPower m q) 17 1).digits) ∧
      below ≤ 4 * m ∧ 4 * m < (2 + below) * 10 ^ 16 := by
    refine ⟨if m = 0x10000000000000 ∧ -1074 < q then 1 else 2, rfl, ?_, ?_⟩ <;> split <;> omega
  rw [hshortest]
  have hfine : (10 : ℚ) ^ (leadingPower m q - (17 - 1 : Nat)) * 10 ^ 16 =
      10 ^ leadingPower m q := by
    rw [← zpow_natCast, ← zpow_add₀ (by norm_num)]
    congr 1
    omega
  have hhit := exists_nearestOnGrid (k := leadingPower m q - (17 - 1 : Nat)) hb
    (steps_pos (hlow.trans' (zpow_le_zpow_right₀ (by norm_num) (by omega))))
    (grid_lt (hfine.trans_le hlow) hb')
  obtain ⟨n, hn, hn', hd⟩ := exists_hit (show 1 ≤ 17 ∧ 17 < 1 + 17 by decide) hhit
  generalize shortestFrom m q below (leadingPower m q) 17 1 = d at hd ⊢
  obtain ⟨hexponent, hpos, hsteps, -⟩ := nearestOnGrid_spec hd
  obtain ⟨hvalue, hle, hpos', hexponent'⟩ := stripped_spec (digitCount d.digits) d
  refine ⟨hvalue.trans_le (value_le hd), hpos' hpos, hle.trans ?_, by omega⟩
  have hfew : (Scale.of q (leadingPower m q - (n - 1 : Nat))).steps m < 10 ^ n := by
    refine steps_lt (hhigh.trans_eq ?_)
    rw [← zpow_natCast, ← zpow_add₀ (by norm_num)]
    congr 1
    omega
  calc d.digits ≤ 10 ^ n := hsteps.trans hfew
    _ ≤ 10 ^ 17 := Nat.pow_le_pow_right (by decide) hn

end Rill.Number
