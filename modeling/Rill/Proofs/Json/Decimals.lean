import Rill.Proofs.Json.Numerals
import Rill.Proofs.Number.Finite
import Rill.Proofs.Number.Shortest

/-!
# Decimals in a text

The text of every finite number with a fraction is read as a number (`numeral?_floatText`), which
may be its neighbour. A text without an exponent has a digit after the point, so that reading it
divides by a power of ten, which is always possible. A text with an exponent is read with the digits
and the power of ten that it was written with (`readNumber_scientific`), and the product of these is
no infinity where they are the shortest decimal of a number (`exists_ofDecimal?_shortest`).
-/

namespace Rill

namespace Number

variable {m n : Nat} {q e : Int}

/-! ## What is within reach -/

theorem exists_ofDecimal?_of_neg (negative : Bool) (n : Nat) (he : e < 0) :
    ∃ x, ofDecimal? negative n e = some x := by
  obtain ⟨r, hr⟩ := scale_of_neg he n.toUInt64.toFloat
  exact ⟨_, Option.map_eq_some_iff.mpr ⟨r, hr, rfl⟩⟩

theorem lt_of_pow_le_reachable {j k : Nat} (hj : reachable < 10 ^ j) (h : 10 ^ k ≤ reachable) :
    k < j :=
  (Nat.pow_lt_pow_iff_right (by decide)).mp (h.trans_lt hj)

theorem exists_ofDecimal?_of_le (negative : Bool) (hpos : 0 < n) (hlt : n < 2 ^ 64)
    (h : n * 10 ^ e.toNat ≤ reachable) : ∃ x, ofDecimal? negative n e = some x := by
  rcases Int.lt_or_le e 0 with hneg | hnonneg
  · exact exists_ofDecimal?_of_neg negative n hneg
  · have hk := lt_of_pow_le_reachable (j := 309) (by decide +kernel)
      ((Nat.le_mul_of_pos_left _ hpos).trans h)
    obtain ⟨r, hr⟩ := scale_of_le hpos hlt (Nat.le_of_lt_succ hk) h
    rw [Int.toNat_of_nonneg hnonneg] at hr
    exact ⟨_, Option.map_eq_some_iff.mpr ⟨r, hr, rfl⟩⟩

/-- Half a place above a number is within reach, but for the two greatest. -/
theorem half_above_le (h : q ≤ 970 ∧ m < 2 ^ 53 ∨ q ≤ 971 ∧ m + 2 < 2 ^ 53) :
    ((m : ℚ) + 1 / 2) * 2 ^ q ≤ reachable := by
  rw [cast_reachable]
  rcases h with ⟨hq, hm⟩ | ⟨hq, hm⟩
  · have hm' : (m : ℚ) + 1 ≤ 2 ^ 53 := by exact_mod_cast hm
    refine mul_le_mul ?_ (zpow_le_zpow_right₀ one_le_two hq) (zpow_pos two_pos q).le (by norm_num)
    norm_num at hm' ⊢
    linarith
  · have hm' : (m : ℚ) + 3 ≤ 2 ^ 53 := by exact_mod_cast hm
    have hq' : (2 : ℚ) ^ q ≤ 2 * 2 ^ (970 : ℤ) :=
      (zpow_le_zpow_right₀ one_le_two hq).trans_eq (zpow_one_add₀ two_ne_zero 970)
    calc ((m : ℚ) + 1 / 2) * 2 ^ q ≤ (m + 1 / 2) * (2 * 2 ^ (970 : ℤ)) :=
          mul_le_mul_of_nonneg_left hq' (by positivity)
      _ = ((m + 1 / 2) * 2) * 2 ^ (970 : ℤ) := by rw [mul_assoc]
      _ ≤ (2 ^ 54 - 5 : ℕ) * 2 ^ (970 : ℤ) := by
        refine mul_le_mul_of_nonneg_right ?_ (zpow_pos two_pos 970).le
        norm_num at hm' ⊢
        linarith

/-- The shortest decimal of a number is read as a number. The bounds of rounding are too coarse for
the two greatest numbers, whose decimals are read one by one. -/
theorem exists_ofDecimal?_shortest (negative : Bool) (hm : 0 < m) (hlt : m < 2 ^ 53)
    (hq : q ≤ 971) :
    ∃ x, ofDecimal? negative (shortest m q).digits (shortest m q).exponent = some x := by
  obtain ⟨hvalue, hpos, hle, -⟩ := shortest_spec (q := q) hm hlt
  by_cases hreach : q ≤ 970 ∧ m < 2 ^ 53 ∨ q ≤ 971 ∧ m + 2 < 2 ^ 53
  · rcases Int.lt_or_le (shortest m q).exponent 0 with hneg | hnonneg
    · exact exists_ofDecimal?_of_neg negative _ hneg
    · refine exists_ofDecimal?_of_le negative hpos (hle.trans_lt (by decide)) ?_
      obtain ⟨k, hk⟩ := Int.eq_ofNat_of_zero_le hnonneg
      have hvalue' := hvalue.trans (half_above_le hreach)
      rw [Decimal.value, hk, zpow_natCast] at hvalue'
      rw [hk, Int.toNat_natCast]
      refine Nat.cast_le.mp (hvalue'.trans_eq' ?_)
      rw [Nat.cast_mul, Nat.cast_pow, Nat.cast_ofNat]
  · obtain rfl : q = 971 := by omega
    have hgreatest : ∀ m ∈ [2 ^ 53 - 1, 2 ^ 53 - 2], ∀ negative, (ofDecimal? negative
        (shortest m 971).digits (shortest m 971).exponent).isSome = true := by
      decide +kernel
    have hmem : m ∈ [2 ^ 53 - 1, 2 ^ 53 - 2] := by
      rw [List.mem_cons, List.mem_singleton]
      omega
    exact Option.isSome_iff_exists.mp (hgreatest m hmem negative)

/-- The power of ten of a shortest decimal is far from where reading gives up. -/
theorem natAbs_exponent_shortest (hm : 0 < m) (hlt : m < 2 ^ 53) (hq : -1074 ≤ q ∧ q ≤ 971) :
    (shortest m q).exponent.natAbs ≤ 1100 := by
  obtain ⟨hvalue, hpos, -, hlead⟩ := shortest_spec (q := q) hm hlt
  have hten : (2 : ℚ) ≤ 10 := by norm_num
  have hhigh : (10 : ℚ) ^ (shortest m q).exponent ≤ 10 ^ (1024 : ℤ) :=
    calc (10 : ℚ) ^ (shortest m q).exponent ≤ (shortest m q).value :=
          le_mul_of_one_le_left (by positivity) (Nat.one_le_cast.mpr hpos)
      _ ≤ (m + 1 / 2) * 2 ^ q := hvalue
      _ ≤ 2 ^ 53 * 2 ^ (971 : ℤ) := by
        have hm' : (m : ℚ) + 1 ≤ 2 ^ 53 := by exact_mod_cast hlt
        refine mul_le_mul (by linarith) (zpow_le_zpow_right₀ one_le_two hq.2)
          (zpow_pos two_pos q).le (by norm_num)
      _ = 2 ^ (1024 : ℤ) := by
        rw [← zpow_natCast, ← zpow_add₀ two_ne_zero]
        rfl
      _ ≤ 10 ^ (1024 : ℤ) := zpow_le_zpow_left₀ (by decide) two_pos.le hten
  have hlow : (10 : ℚ) ^ (-1074 : ℤ) < 10 ^ (leadingPower m q + 1) :=
    calc (10 : ℚ) ^ (-1074 : ℤ) ≤ 2 ^ (-1074 : ℤ) := by
          rw [zpow_neg, zpow_neg]
          exact inv_anti₀ (zpow_pos two_pos _) (zpow_le_zpow_left₀ (by decide) two_pos.le hten)
      _ ≤ 2 ^ q := zpow_le_zpow_right₀ one_le_two hq.1
      _ ≤ m * 2 ^ q := le_mul_of_one_le_left (zpow_pos two_pos q).le (Nat.one_le_cast.mpr hm)
      _ < 10 ^ (leadingPower m q + 1) := (leadingPower_spec hm).2
  rw [zpow_le_zpow_iff_right₀ (by norm_num)] at hhigh
  rw [zpow_lt_zpow_iff_right₀ (by norm_num)] at hlow
  omega

end Number

namespace Json

variable {negative : Bool} {n significand : Nat} {e : Int} {ds rest : List Char}

/-! ## Reading digits -/

theorem ofDigitChars_lt (hd : ∀ c ∈ ds, c.isDigit = true) (a : Nat) :
    Nat.ofDigitChars 10 ds a < (a + 1) * 10 ^ ds.length := by
  induction ds generalizing a with
  | nil => simp
  | cons c cs ih =>
    have hc : c.toNat - '0'.toNat < 10 := by
      have hdigit := hd c List.mem_cons_self
      rw [Char.isDigit, Bool.and_eq_true, decide_eq_true_eq, decide_eq_true_eq] at hdigit
      have hnine : c.toNat ≤ '9'.toNat := hdigit.2
      have hvalues : '9'.toNat = 57 ∧ '0'.toNat = 48 := ⟨rfl, rfl⟩
      omega
    rw [Nat.ofDigitChars_cons]
    calc Nat.ofDigitChars 10 cs (10 * a + (c.toNat - '0'.toNat))
        < (10 * a + (c.toNat - '0'.toNat) + 1) * 10 ^ cs.length :=
          ih (fun d h => hd d (List.mem_cons_of_mem c h)) _
      _ ≤ (a + 1) * 10 * 10 ^ cs.length := Nat.mul_le_mul_right _ (by omega)
      _ = (a + 1) * 10 ^ (c :: cs).length := by rw [List.length_cons, Nat.pow_succ', Nat.mul_assoc]

/-- Nineteen digits are within the limit. -/
theorem ofDigitChars_le (hd : ∀ c ∈ ds, c.isDigit = true) (hlen : ds.length ≤ 19) :
    Nat.ofDigitChars 10 ds 0 ≤ maxSignificand :=
  calc Nat.ofDigitChars 10 ds 0 ≤ (0 + 1) * 10 ^ ds.length := (ofDigitChars_lt hd 0).le
    _ ≤ (0 + 1) * 10 ^ 19 := Nat.mul_le_mul_left _ (Nat.pow_le_pow_right (by decide) hlen)
    _ ≤ maxSignificand := by decide

/-- Digits after the point are all taken, if the significand has room for them. -/
theorem readFraction_digits (negative : Bool) (hne : ds ≠ []) (hd : ∀ c ∈ ds, c.isDigit = true)
    (hl : Nat.ofDigitChars 10 ds significand ≤ maxSignificand) (hr : startsWithDigit rest = false) :
    readFraction negative significand e (ds ++ rest) =
      readTail negative (Nat.ofDigitChars 10 ds significand) (e - ds.length) rest := by
  have htaken : (ds ++ rest).length - rest.length = ds.length := by
    rw [List.length_append, Nat.add_sub_cancel]
  have hlen : ds.length ≠ 0 := mt List.eq_nil_of_length_eq_zero hne
  simp only [readFraction, gather_digits hd hl hr, htaken, hr, hlen, Bool.false_eq_true,
    ↓reduceIte]

theorem readPower_digitsOf {down : Bool} (hn : n ≤ maxExponent) :
    readPower negative significand e down (Number.digitsOf n) =
      readDecimal negative significand (if down then e - n else e + n) [] := by
  have hd : ∀ c ∈ Number.digitsOf n, c.isDigit = true := isDigit_toDigits
  have hvalue : Nat.ofDigitChars 10 (Number.digitsOf n) 0 = n := Nat.ofDigitChars_ten_toDigits
  have hgather := gather_digits hd (hvalue.trans_le hn) startsWithDigit_nil
  rw [List.append_nil, hvalue] at hgather
  obtain ⟨c, cs, hcons⟩ := List.exists_cons_of_ne_nil (numberText_digitsOf n).ne_nil
  have hempty : (Number.digitsOf n).isEmpty = false := by rw [hcons, List.isEmpty_cons]
  have hstart : startsWithDigit (Number.digitsOf n) = true := by
    rw [hcons] at hd ⊢
    exact startsWithDigit_cons (hd c List.mem_cons_self) cs
  simp only [readPower, hgather, hstart, hempty, startsWithDigit_nil, Bool.not_true,
    Bool.false_eq_true, ↓reduceIte]

/-- An exponent with its sign is added to the power of ten. -/
theorem readExponent_signed {k : Int} (hk : k.natAbs ≤ maxExponent) :
    readExponent negative significand e ((if k < 0 then '-' else '+') :: Number.digitsOf k.natAbs) =
      readDecimal negative significand (e + k) [] := by
  split
  next hneg =>
    have hread : readExponent negative significand e ('-' :: Number.digitsOf k.natAbs) =
      readPower negative significand e true (Number.digitsOf k.natAbs) := rfl
    rw [hread, readPower_digitsOf hk, if_pos rfl, show e - k.natAbs = e + k by omega]
  next hnonneg =>
    have hread : readExponent negative significand e ('+' :: Number.digitsOf k.natAbs) =
      readPower negative significand e false (Number.digitsOf k.natAbs) := rfl
    rw [hread, readPower_digitsOf hk, if_neg Bool.false_ne_true,
      show e + k.natAbs = e + k by omega]

/-! ## Reading decimals -/

theorem readDecimal_of_some {x : Float} (h : Number.ofDecimal? negative significand e = some x) :
    readDecimal negative significand e rest = .ok (.float x, rest) := by
  simp only [readDecimal, h]

/-- The digits of a positive number, of which the first is no zero. -/
theorem digitsOf_pos (h : 0 < n) : ∃ c cs, Number.digitsOf n = c :: cs ∧ c ≠ '0' ∧
    (∀ d ∈ c :: cs, d.isDigit = true) ∧ Nat.ofDigitChars 10 (c :: cs) 0 = n := by
  obtain ⟨c, cs, hc, hne⟩ := toDigits_head n
  exact ⟨c, cs, hc, hne h, hc ▸ isDigit_toDigits, hc ▸ Nat.ofDigitChars_ten_toDigits⟩

/-- Digits with a point among them are read as a natural number over a power of ten. -/
theorem readNumber_point (negative : Bool) {c : Char} (cs : List Char) {part : List Char}
    (hc : c ≠ '0') (hd : ∀ d ∈ c :: cs ++ part, d.isDigit = true) (hne : part ≠ [])
    (hl : Nat.ofDigitChars 10 (c :: cs ++ part) 0 ≤ maxSignificand)
    (hr : startsWithDigit rest = false) :
    readNumber negative (c :: cs ++ '.' :: (part ++ rest)) =
      readTail negative (Nat.ofDigitChars 10 (c :: cs ++ part) 0) (-part.length) rest := by
  rw [Nat.ofDigitChars_append] at hl ⊢
  have hwhole := (le_ofDigitChars part _).trans hl
  have hfraction (w : Nat) : readInteger negative w ('.' :: (part ++ rest)) =
      readFraction negative w 0 (part ++ rest) := rfl
  rw [readNumber_leading negative (fun d h => hd d (List.mem_append_left part h)) hc hwhole rfl,
    hfraction, readFraction_digits negative hne (fun d h => hd d (List.mem_append_right _ h)) hl hr,
    Int.zero_sub]

/-- A text with an exponent is read with the digits and the power of ten that it was written with.
-/
theorem readNumber_scientific (hpos : 0 < n) (hn : n ≤ maxSignificand)
    (he : e.natAbs ≤ maxExponent) :
    readNumber negative (Number.scientific (Number.digitsOf n) e) =
      readDecimal negative n (e - ((Number.digitsOf n).length - 1 : Nat)) [] := by
  obtain ⟨c, cs, hcons, hc, hd, hvalue⟩ := digitsOf_pos hpos
  have hl := hvalue.trans_le hn
  have hmark : startsWithDigit ('e' :: (if e < 0 then '-' else '+') ::
      Number.digitsOf e.natAbs) = false := rfl
  have hexponent (k : Int) : readTail negative n k ('e' :: (if e < 0 then '-' else '+') ::
      Number.digitsOf e.natAbs) = readDecimal negative n (k + e) [] := readExponent_signed he
  rw [hcons, List.length_cons, Nat.add_sub_cancel]
  cases cs with
  | nil =>
    refine (readNumber_leading negative hd hc hl hmark).trans ?_
    rw [hvalue, show e - ([] : List Char).length = 0 + e by simp]
    exact readExponent_signed he
  | cons c' cs =>
    refine (readNumber_point negative [] hc hd (List.cons_ne_nil c' cs) hl hmark).trans ?_
    rw [List.cons_append, List.nil_append, hvalue, hexponent, Int.sub_eq_add_neg, Int.add_comm]

/-- Before a negative power of ten there is a number. -/
theorem exists_readDecimal_of_neg (negative : Bool) (significand : Nat) (he : e < 0) :
    ∃ x, readDecimal negative significand e [] = .ok (.float x, []) := by
  obtain ⟨x, hx⟩ := Number.exists_ofDecimal?_of_neg negative significand he
  exact ⟨x, readDecimal_of_some hx⟩

/-- Without an exponent the text ends in a digit after the point. -/
theorem exists_readNumber_positionalLarge (hpos : 0 < n) (hlen : (Number.digitsOf n).length ≤ 19)
    {k : Nat} (hk : k ≤ 15) :
    ∃ x, readNumber negative (Number.positionalLarge (Number.digitsOf n) k) =
      .ok (.float x, []) := by
  obtain ⟨c, cs, hcons, hc, hd, -⟩ := digitsOf_pos hpos
  obtain ⟨whole, part, heq, hne, hdigits, hcount⟩ :=
    positionalLarge_cons (d := c) (fun d h => hd d (List.mem_cons_of_mem c h)) k
  have hall : ∀ d ∈ c :: whole ++ part, d.isDigit = true :=
    List.forall_mem_cons.mpr ⟨hd c List.mem_cons_self, hdigits⟩
  have hl : Nat.ofDigitChars 10 (c :: whole ++ part) 0 ≤ maxSignificand := by
    refine ofDigitChars_le hall ?_
    rw [hcons, List.length_cons] at hlen
    rw [List.cons_append, List.length_cons]
    omega
  have hread := readNumber_point negative whole hc hall hne hl startsWithDigit_nil
  have hneg : (-part.length : Int) < 0 := by
    have hpart := List.length_pos_iff.mpr hne
    omega
  obtain ⟨x, hx⟩ := exists_readDecimal_of_neg negative _ hneg
  rw [List.append_nil] at hread
  rw [hcons, heq]
  exact ⟨x, hread.trans hx⟩

theorem exists_readNumber_positionalSmall (hn : n ≤ maxSignificand) (k : Nat) :
    ∃ x, readNumber negative (Number.positionalSmall (Number.digitsOf n) k) =
      .ok (.float x, []) := by
  have hne : List.replicate (k - 1) '0' ++ Number.digitsOf n ≠ [] :=
    List.append_ne_nil_of_right_ne_nil _ (numberText_digitsOf n).ne_nil
  have hdigits : ∀ c ∈ List.replicate (k - 1) '0' ++ Number.digitsOf n, c.isDigit = true := by
    intro c hc
    rcases List.mem_append.mp hc with hc | hc
    · rw [List.eq_of_mem_replicate hc]
      rfl
    · exact isDigit_toDigits c hc
  have hvalue : Nat.ofDigitChars 10 (List.replicate (k - 1) '0' ++ Number.digitsOf n) 0 = n := by
    rw [Nat.ofDigitChars_append, Nat.ofDigitChars_replicate_zero]
    exact Nat.ofDigitChars_ten_toDigits
  have hneg : (0 - (List.replicate (k - 1) '0' ++ Number.digitsOf n).length : Int) < 0 := by
    have hpart := List.length_pos_iff.mpr hne
    omega
  have hread := readFraction_digits (e := 0) negative hne hdigits (hvalue.trans_le hn)
    startsWithDigit_nil
  obtain ⟨x, hx⟩ := exists_readDecimal_of_neg negative _ hneg
  rw [List.append_nil] at hread
  exact ⟨x, hread.trans hx⟩

/-- The text of a decimal is read, if reading it with an exponent does not go too far. -/
theorem exists_readNumber_text {d : Number.Decimal} (hpos : 0 < d.digits)
    (hle : d.digits ≤ 10 ^ 17) (he : d.exponent.natAbs ≤ 1100)
    (h : ∃ x, Number.ofDecimal? negative d.digits d.exponent = some x) :
    ∃ x, readNumber negative d.text = .ok (.float x, []) := by
  have hn : d.digits ≤ maxSignificand := hle.trans (by decide)
  have hlen : (Number.digitsOf d.digits).length ≤ 18 :=
    (Nat.length_toDigits_le_iff (by decide) (by decide)).mpr (hle.trans_lt (by decide))
  have hgreatest : Number.layout.greatest = 15 := rfl
  simp only [Number.Decimal.text]
  split
  · split
    · exact exists_readNumber_positionalLarge hpos (by omega) (by omega)
    · exact exists_readNumber_positionalSmall hn _
  · obtain ⟨x, hx⟩ := h
    rw [readNumber_scientific hpos hn (by rw [maxExponent]; omega), Int.add_sub_cancel]
    exact ⟨x, readDecimal_of_some hx⟩

/-! ## Reading the text of a number -/

theorem readSigned_of_readNumber {cs : List Char} {r : Numeral × List Char}
    (h : readNumber false cs = .ok r) : readSigned cs = .ok r := by
  unfold readSigned
  split
  · cases h
  · exact h

/-- The text of a number with a fraction is read as a number with a fraction. -/
theorem numeral?_floatText {x : Float} (h : x.isFinite = true) :
    ∃ y, numeral? (Number.floatText x) = some (.float y) := by
  obtain ⟨hlt, hq⟩ := Number.magnitude_bounds h
  have hbody (negative : Bool) : ∃ y, readNumber negative
      (if (Number.magnitude x).1 = 0 then ['0', '.', '0']
        else (Number.shortest (Number.magnitude x).1 (Number.magnitude x).2).text) =
      .ok (.float y, []) := by
    split
    · exact exists_readDecimal_of_neg negative 0 (show (-1 : Int) < 0 by decide)
    next hne =>
      have hm := Nat.pos_of_ne_zero hne
      obtain ⟨-, hpos, hle, -⟩ := Number.shortest_spec (q := (Number.magnitude x).2) hm hlt
      exact exists_readNumber_text hpos hle (Number.natAbs_exponent_shortest hm hlt hq)
        (Number.exists_ofDecimal?_shortest negative hm hlt hq.2)
  simp only [Number.floatText]
  cases Number.isNegative x with
  | true =>
    obtain ⟨y, hy⟩ := hbody true
    exact ⟨y, by simp only [↓reduceIte, numeral?, readSigned, hy]⟩
  | false =>
    obtain ⟨y, hy⟩ := hbody false
    exact ⟨y, by simp only [Bool.false_eq_true, ↓reduceIte, numeral?,
      readSigned_of_readNumber hy]⟩

end Json

end Rill
