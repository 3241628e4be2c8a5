import Mathlib.Data.List.Forall2
import Rill.Text.Utf8

/-!
# Decoding with replacement

What a text that is decoded with replacement has to be is said by the encoding of characters alone:
`Begins` holds of bytes that start a character and stop before its end, `Stops` of the longest bytes
that start one and cannot go on, and `Lossy` reads characters and puts one replacement for each such
bytes.

* `front_cases`: what `front` finds, in these terms;
* `lossy_iff`: `lossy` gives the one text that `Lossy` allows;
* `lossy_append`: bytes may be decoded in two parts, if what the first part has left over goes in
  front of the second.

A first byte decides how many bytes follow it and what each of them must be (`tests?`), and `front`
is the walk along these tests (`follow`).
-/

namespace Rill.Text.Utf8

/-- The bytes start a character and stop before its end. -/
def Begins (bytes : List UInt8) : Prop :=
  bytes ≠ [] ∧ ∃ c tail, tail ≠ [] ∧ String.utf8EncodeChar c = bytes ++ tail

/-- No character is in front of `bad ++ rest`, and `bad` is all that one replacement stands for: the
longest bytes that start a character, or one byte if no character starts with it. -/
structure Stops (bad rest : List UInt8) : Prop where
  ne_nil : bad ≠ []
  begins : bad.length = 1 ∨ Begins bad
  not_char : ∀ c, ¬ String.utf8EncodeChar c <+: bad ++ rest
  longest : ∀ p, p <+: bad ++ rest → Begins p → p.length ≤ bad.length

/-- The text of the bytes, with replacement. -/
inductive Lossy : List UInt8 → List Char → Prop
  | nil : Lossy [] []
  | char (c : Char) {rest : List UInt8} {text : List Char} :
    Lossy rest text → Lossy (String.utf8EncodeChar c ++ rest) (c :: text)
  | bad {bad rest : List UInt8} {text : List Char} :
    Stops bad rest → Lossy rest text → Lossy (bad ++ rest) (replacement :: text)

variable {bytes a b rest m seen bad : List UInt8} {x y : UInt8} {c : Char} {text : List Char}
  {tests : List (UInt8 → Bool)}

/-! ## Bytes and numbers -/

theorem isTail_iff : isTail x = true ↔ 0x80 ≤ x.toNat ∧ x.toNat ≤ 0xbf := by
  simp [isTail, UInt8.le_iff_toNat_le]

theorem secondOfThree_iff :
    secondOfThree x y = true ↔
      (0x80 ≤ y.toNat ∧ y.toNat ≤ 0xbf) ∧
      (x.toNat = 0xe0 → 0xa0 ≤ y.toNat) ∧ (x.toNat = 0xed → y.toNat ≤ 0x9f) := by
  simp only [secondOfThree, ← UInt8.toNat_inj]
  repeat' split
  all_goals simp [UInt8.le_iff_toNat_le, isTail] at *; omega

theorem secondOfFour_iff :
    secondOfFour x y = true ↔
      (0x80 ≤ y.toNat ∧ y.toNat ≤ 0xbf) ∧
      (x.toNat = 0xf0 → 0x90 ≤ y.toNat) ∧ (x.toNat = 0xf4 → y.toNat ≤ 0x8f) := by
  simp only [secondOfFour, ← UInt8.toNat_inj]
  repeat' split
  all_goals simp [UInt8.le_iff_toNat_le, isTail] at *; omega

theorem toNat_byte {v : Nat} (h : v < 256) : (UInt8.ofNat v).toNat = v := by
  rw [UInt8.toNat_ofNat', Nat.mod_eq_of_lt (by omega)]

theorem byte_eq {v : Nat} (h : v = x.toNat) : UInt8.ofNat v = x := by
  rw [h, UInt8.ofNat_toNat]

theorem toNat_char {v : Nat} (h : v < 0xd800 ∨ 0xdfff < v ∧ v < 0x110000) :
    (Char.ofNat v).toNat = v := by
  have hv : v.isValidChar := h
  rw [Char.ofNat, dif_pos hv]
  rfl

/-- The bytes of a character, by its number. -/
theorem encodeChar_of_toNat {v : Nat} (h : c.toNat = v) :
    String.utf8EncodeChar c =
      if v ≤ 0x7f then [.ofNat v]
      else if v ≤ 0x7ff then [.ofNat (v / 64 % 32 + 0xc0), .ofNat (v % 64 + 0x80)]
      else if v ≤ 0xffff then
        [.ofNat (v / 4096 % 16 + 0xe0), .ofNat (v / 64 % 64 + 0x80), .ofNat (v % 64 + 0x80)]
      else
        [.ofNat (v / 262144 % 8 + 0xf0), .ofNat (v / 4096 % 64 + 0x80),
          .ofNat (v / 64 % 64 + 0x80), .ofNat (v % 64 + 0x80)] := by
  subst h
  rfl

/-! ## The bytes of one character -/

/-- What the bytes after `x` have to pass, one after the other, to make a character with it, if some
character starts with `x`. -/
def tests? (x : UInt8) : Option (List (UInt8 → Bool)) :=
  if x < 0x80 then some []
  else if 0xc2 ≤ x && x ≤ 0xdf then some [isTail]
  else if 0xe0 ≤ x && x ≤ 0xef then some [secondOfThree x, isTail]
  else if 0xf0 ≤ x && x ≤ 0xf4 then some [secondOfFour x, isTail, isTail]
  else none

/-- The bytes pass the tests, each its own. -/
abbrev Pass (tests : List (UInt8 → Bool)) (bytes : List UInt8) : Prop :=
  List.Forall₂ (fun t b => t b = true) tests bytes

/-- The character of bytes that have passed. -/
def value : List UInt8 → Char
  | [x] => Char.ofNat x.toNat
  | [x, y] => Char.ofNat (x.toNat % 32 * 64 + tailBits y)
  | [x, y, z] => Char.ofNat (x.toNat % 16 * 4096 + tailBits y * 64 + tailBits z)
  | [x, y, z, u] =>
    Char.ofNat (x.toNat % 8 * 262144 + tailBits y * 4096 + tailBits z * 64 + tailBits u)
  | _ => replacement

theorem tests?_of_toNat :
    tests? x =
      if x.toNat < 0x80 then some []
      else if 0xc2 ≤ x.toNat ∧ x.toNat ≤ 0xdf then some [isTail]
      else if 0xe0 ≤ x.toNat ∧ x.toNat ≤ 0xef then some [secondOfThree x, isTail]
      else if 0xf0 ≤ x.toNat ∧ x.toNat ≤ 0xf4 then some [secondOfFour x, isTail, isTail]
      else none := by
  simp [tests?, UInt8.lt_iff_toNat_lt, UInt8.le_iff_toNat_le]

/-- The four kinds of first bytes. -/
theorem tests?_cases (h : tests? x = some tests) :
    (x.toNat < 0x80 ∧ tests = []) ∨
    ((0xc2 ≤ x.toNat ∧ x.toNat ≤ 0xdf) ∧ tests = [isTail]) ∨
    ((0xe0 ≤ x.toNat ∧ x.toNat ≤ 0xef) ∧ tests = [secondOfThree x, isTail]) ∨
    ((0xf0 ≤ x.toNat ∧ x.toNat ≤ 0xf4) ∧ tests = [secondOfFour x, isTail, isTail]) := by
  rw [tests?_of_toNat] at h
  repeat' split at h
  all_goals simp_all

/-- The bytes of a character pass. -/
theorem pass_encodeChar (c : Char) :
    ∃ x m tests, String.utf8EncodeChar c = x :: m ∧ tests? x = some tests ∧ Pass tests m ∧
      value (x :: m) = c := by
  obtain ⟨v, hc⟩ : ∃ v, c.toNat = v := ⟨_, rfl⟩
  have hv : v < 0xd800 ∨ 0xdfff < v ∧ v < 0x110000 := hc ▸ c.valid
  have hof : Char.ofNat v = c := hc ▸ Char.ofNat_toNat c
  rw [encodeChar_of_toNat hc]
  by_cases h1 : v ≤ 0x7f
  · rw [if_pos h1]
    have hx := toNat_byte (v := v) (by omega)
    refine ⟨_, _, [], rfl, ?_, .nil, ?_⟩
    · rw [tests?_of_toNat, hx, if_pos (by omega)]
    · rw [value, hx, hof]
  rw [if_neg h1]
  have hz := toNat_byte (v := v % 64 + 0x80) (by omega)
  by_cases h2 : v ≤ 0x7ff
  · rw [if_pos h2]
    have hx := toNat_byte (v := v / 64 % 32 + 0xc0) (by omega)
    refine ⟨_, _, [isTail], rfl, ?_, .cons ?_ .nil, ?_⟩
    · rw [tests?_of_toNat, hx, if_neg (by omega), if_pos (by omega)]
    · rw [isTail_iff, hz]
      omega
    · rw [value, tailBits, hx, hz, ← hof]
      congr 1
      omega
  rw [if_neg h2]
  have hy := toNat_byte (v := v / 64 % 64 + 0x80) (by omega)
  by_cases h3 : v ≤ 0xffff
  · rw [if_pos h3]
    have hx := toNat_byte (v := v / 4096 % 16 + 0xe0) (by omega)
    refine ⟨_, _, [secondOfThree (.ofNat (v / 4096 % 16 + 0xe0)), isTail], rfl, ?_,
      .cons ?_ (.cons ?_ .nil), ?_⟩
    · rw [tests?_of_toNat, hx, if_neg (by omega), if_neg (by omega), if_pos (by omega)]
    · rw [secondOfThree_iff, hx, hy]
      omega
    · rw [isTail_iff, hz]
      omega
    · rw [value, tailBits, tailBits, hx, hy, hz, ← hof]
      congr 1
      omega
  · rw [if_neg h3]
    have hu := toNat_byte (v := v / 4096 % 64 + 0x80) (by omega)
    have hx := toNat_byte (v := v / 262144 % 8 + 0xf0) (by omega)
    refine ⟨_, _, [secondOfFour (.ofNat (v / 262144 % 8 + 0xf0)), isTail, isTail], rfl, ?_,
      .cons ?_ (.cons ?_ (.cons ?_ .nil)), ?_⟩
    · rw [tests?_of_toNat, hx, if_neg (by omega), if_neg (by omega), if_neg (by omega),
        if_pos (by omega)]
    · rw [secondOfFour_iff, hx, hu]
      omega
    · rw [isTail_iff, hy]
      omega
    · rw [isTail_iff, hz]
      omega
    · rw [value, tailBits, tailBits, tailBits, hx, hu, hy, hz, ← hof]
      congr 1
      omega

/-- Bytes that pass are those of their character. -/
theorem encodeChar_value (h : tests? x = some tests) (hm : Pass tests m) :
    String.utf8EncodeChar (value (x :: m)) = x :: m := by
  obtain ⟨hx, rfl⟩ | ⟨hx, rfl⟩ | ⟨hx, rfl⟩ | ⟨hx, rfl⟩ := tests?_cases h
  · match m, hm with
    | [], .nil =>
      have hc : (value [x]).toNat = x.toNat := toNat_char (by omega)
      rw [encodeChar_of_toNat hc, if_pos (by omega), UInt8.ofNat_toNat]
  · match m, hm with
    | [y], .cons hy .nil =>
      rw [isTail_iff] at hy
      obtain ⟨v, hv⟩ : ∃ v, v = x.toNat % 32 * 64 + y.toNat % 64 := ⟨_, rfl⟩
      have hc : value [x, y] = Char.ofNat v := by rw [hv]; rfl
      rw [hc, encodeChar_of_toNat (toNat_char (by omega)), if_neg (by omega), if_pos (by omega),
        byte_eq (x := x) (by omega), byte_eq (x := y) (by omega)]
  · match m, hm with
    | [y, z], .cons hy (.cons hz .nil) =>
      rw [secondOfThree_iff] at hy
      rw [isTail_iff] at hz
      obtain ⟨v, hv⟩ : ∃ v, v = x.toNat % 16 * 4096 + y.toNat % 64 * 64 + z.toNat % 64 := ⟨_, rfl⟩
      have hc : value [x, y, z] = Char.ofNat v := by rw [hv]; rfl
      rw [hc, encodeChar_of_toNat (toNat_char (by omega)), if_neg (by omega), if_neg (by omega),
        if_pos (by omega), byte_eq (x := x) (by omega), byte_eq (x := y) (by omega),
        byte_eq (x := z) (by omega)]
  · match m, hm with
    | [y, z, u], .cons hy (.cons hz (.cons hu .nil)) =>
      rw [secondOfFour_iff] at hy
      rw [isTail_iff] at hz hu
      obtain ⟨v, hv⟩ : ∃ v, v = x.toNat % 8 * 262144 + y.toNat % 64 * 4096 + z.toNat % 64 * 64 +
        u.toNat % 64 := ⟨_, rfl⟩
      have hc : value [x, y, z, u] = Char.ofNat v := by rw [hv]; rfl
      rw [hc, encodeChar_of_toNat (toNat_char (by omega)), if_neg (by omega), if_neg (by omega),
        if_neg (by omega), byte_eq (x := x) (by omega), byte_eq (x := y) (by omega),
        byte_eq (x := z) (by omega), byte_eq (x := u) (by omega)]

/-- Every test can be passed. -/
theorem exists_pass (h : tests? x = some tests) {ts : List (UInt8 → Bool)} (hs : ts <:+ tests) :
    ∃ m, Pass ts m := by
  have hall : ∀ t ∈ tests, ∃ b, t b = true := by
    have htail : ∃ b, isTail b = true := ⟨0x80, by decide⟩
    have hthree : ∃ b, secondOfThree x b = true := by
      by_cases hx : x = 0xe0
      · exact ⟨0xa0, by subst hx; decide⟩
      · exact ⟨0x80, by by_cases hd : x = 0xed <;> simp [secondOfThree, hx, hd, isTail]⟩
    have hfour : ∃ b, secondOfFour x b = true := by
      by_cases hx : x = 0xf0
      · exact ⟨0x90, by subst hx; decide⟩
      · exact ⟨0x80, by by_cases hd : x = 0xf4 <;> simp [secondOfFour, hx, hd, isTail]⟩
    obtain ⟨-, rfl⟩ | ⟨-, rfl⟩ | ⟨-, rfl⟩ | ⟨-, rfl⟩ := tests?_cases h <;> simp_all
  replace hall : ∀ t ∈ ts, ∃ b, t b = true := fun t ht => hall t (hs.subset ht)
  clear hs h
  induction ts with
  | nil => exact ⟨[], .nil⟩
  | cons t ts ih =>
    obtain ⟨b, hb⟩ := hall t List.mem_cons_self
    obtain ⟨m, hm⟩ := ih fun t ht => hall t (List.mem_cons_of_mem _ ht)
    exact ⟨b :: m, .cons hb hm⟩

/-! ## Walking along the tests -/

/-- The front of bytes after those in `seen`, which have passed. -/
def follow : List (UInt8 → Bool) → List UInt8 → List UInt8 → Front
  | [], seen, _ => .char (value seen) seen.length
  | _ :: _, _, [] => .cut
  | t :: ts, seen, b :: bs => if t b then follow ts (seen ++ [b]) bs else .bad seen.length

theorem front_cons (x : UInt8) (bs : List UInt8) :
    front (x :: bs) =
      match tests? x with
      | none => .bad 1
      | some tests => follow tests [x] bs := by
  simp only [front, tests?]
  split
  · rfl
  split
  · cases bs <;> rfl
  split
  · match bs with
    | [] | [y] | y :: z :: bs => rfl
  split
  · match bs with
    | [] | [y] | [y, z] | y :: z :: u :: bs => rfl
  · rfl

theorem front_of_none (h : tests? x = none) (bs : List UInt8) : front (x :: bs) = .bad 1 := by
  rw [front_cons, h]

theorem front_of_some (h : tests? x = some tests) (bs : List UInt8) :
    front (x :: bs) = follow tests [x] bs := by
  rw [front_cons, h]

/-- More bytes change nothing, unless the character had not ended. -/
theorem follow_append (h : follow tests seen a ≠ .cut) (b : List UInt8) :
    follow tests seen (a ++ b) = follow tests seen a := by
  induction tests generalizing seen a with
  | nil => simp only [follow]
  | cons t ts ih =>
    cases a with
    | nil => exact absurd rfl h
    | cons x a =>
      simp only [List.cons_append, follow] at h ⊢
      by_cases ht : t x
      · simp only [ht, ↓reduceIte] at h ⊢
        exact ih h
      · simp only [ht, Bool.false_eq_true, ↓reduceIte]

theorem follow_of_pass (h : Pass tests m) :
    follow tests seen (m ++ rest) = .char (value (seen ++ m)) (seen ++ m).length := by
  induction h generalizing seen with
  | nil => simp only [follow, List.append_nil]
  | cons ht _ ih => simp only [List.cons_append, follow, ht, ↓reduceIte, ih, List.append_assoc,
      List.nil_append]

/-- The walk passes every test, or the bytes end before, or one of them does not pass. -/
theorem follow_cases (tests : List (UInt8 → Bool)) (seen a : List UInt8) :
    (∃ m rest, a = m ++ rest ∧ Pass tests m) ∨
    (∃ ts us, tests = ts ++ us ∧ us ≠ [] ∧ Pass ts a ∧ follow tests seen a = .cut) ∨
    (∃ m y rest, a = m ++ y :: rest ∧ follow tests seen m = .cut ∧
      follow tests seen (m ++ [y]) = .bad (seen ++ m).length) := by
  induction tests generalizing seen a with
  | nil => exact .inl ⟨[], a, rfl, .nil⟩
  | cons t ts ih =>
    cases a with
    | nil => exact .inr (.inl ⟨[], t :: ts, rfl, by simp, .nil, rfl⟩)
    | cons x a =>
      by_cases ht : t x
      · obtain ⟨m, rest, rfl, hm⟩ | ⟨us, vs, rfl, hv, hu, hf⟩ | ⟨m, y, rest, rfl, hm, hy⟩ :=
          ih (seen ++ [x]) a
        · exact .inl ⟨x :: m, rest, rfl, .cons ht hm⟩
        · exact .inr (.inl ⟨t :: us, vs, rfl, hv, .cons ht hu, by simpa [follow, ht] using hf⟩)
        · exact .inr (.inr ⟨x :: m, y, rest, rfl, by simpa [follow, ht] using hm,
            by simpa [follow, ht] using hy⟩)
      · exact .inr (.inr ⟨[], x, a, rfl, rfl, by simp [follow, ht]⟩)

/-! ## What is in front -/

theorem front_encodeChar (c : Char) (rest : List UInt8) :
    front (String.utf8EncodeChar c ++ rest) = .char c (String.utf8EncodeChar c).length := by
  obtain ⟨x, m, tests, hc, hx, hm, rfl⟩ := pass_encodeChar c
  rw [hc, List.cons_append, front_of_some hx, follow_of_pass hm]
  rfl

theorem front_append (hd : a ≠ []) (hc : front a ≠ .cut) (b : List UInt8) :
    front (a ++ b) = front a := by
  cases a with
  | nil => exact absurd rfl hd
  | cons x a =>
    cases hx : tests? x with
    | none => rw [List.cons_append, front_of_none hx, front_of_none hx]
    | some tests =>
      rw [front_of_some hx] at hc
      rw [List.cons_append, front_of_some hx, front_of_some hx, follow_append hc]

/-- Bytes that start a character are not all of what any front takes off. -/
theorem Begins.front (h : Begins bytes) : front bytes = .cut := by
  obtain ⟨hne, c, tail, htail, hc⟩ := h
  by_contra hcut
  have hlong : Utf8.front bytes = .char c (String.utf8EncodeChar c).length := by
    rw [← front_append hne hcut tail, ← hc, ← front_encodeChar c [], List.append_nil]
  cases bytes with
  | nil => exact hne rfl
  | cons x a =>
    cases hx : tests? x with
    | none => simp [front_of_none hx] at hlong
    | some tests =>
      rw [front_of_some hx] at hlong hcut
      obtain ⟨m, rest, rfl, hm⟩ | ⟨-, -, -, -, -, hf⟩ | ⟨m, y, rest, rfl, -, hf⟩ :=
        follow_cases tests [x] a
      · rw [follow_of_pass hm] at hlong
        have hlen := congrArg List.length hc
        have htail := List.length_pos_of_ne_nil htail
        simp only [Front.char.injEq, List.length_append, List.length_cons, List.length_nil]
          at hlong hlen
        omega
      · exact hcut hf
      · rw [List.append_cons, follow_append (by rw [hf]; simp), hf] at hlong
        cases hlong

theorem begins_of_front (h : front bytes = .cut) : Begins bytes := by
  cases bytes with
  | nil => cases h
  | cons x a =>
    cases hx : tests? x with
    | none => simp [front_of_none hx] at h
    | some tests =>
      rw [front_of_some hx] at h
      obtain ⟨m, rest, rfl, hm⟩ | ⟨ts, us, rfl, hus, hts, -⟩ | ⟨m, y, rest, rfl, -, hf⟩ :=
        follow_cases tests [x] a
      · rw [follow_of_pass hm] at h
        cases h
      · obtain ⟨tail, htail⟩ := exists_pass hx (List.suffix_append ts us)
        refine ⟨by simp, value (x :: (a ++ tail)), tail, ?_, ?_⟩
        · rintro rfl
          exact hus (List.forall₂_nil_right_iff.mp htail)
        · rw [encodeChar_value hx (List.rel_append hts htail), List.cons_append]
      · rw [List.append_cons, follow_append (by rw [hf]; simp), hf] at h
        cases h

/-- Bytes that the front calls bad are the longest that start a character, if no longer ones do. -/
theorem Stops.of_front (hb : bad.length = 1 ∨ Begins bad)
    (hf : front (bad ++ rest) = .bad bad.length)
    (hp : ∀ p, p <+: bad ++ rest → bad.length < p.length → front p ≠ .cut) : Stops bad rest where
  ne_nil := by
    rintro rfl
    exact hb.elim (by simp) fun h => h.1 rfl
  begins := hb
  not_char := by
    rintro c ⟨t, ht⟩
    have hc := front_encodeChar c t
    rw [ht, hf] at hc
    cases hc
  longest := by
    intro p hpre hbegin
    by_contra hlen
    exact hp p hpre (by omega) hbegin.front

/-- What is in front of some bytes: nothing, a character, the start of a character that has not
ended, or bytes that cannot go on. -/
theorem front_cases (bytes : List UInt8) :
    (bytes = [] ∧ front bytes = .done) ∨
    (∃ c rest, bytes = String.utf8EncodeChar c ++ rest ∧
      front bytes = .char c (String.utf8EncodeChar c).length) ∨
    (Begins bytes ∧ front bytes = .cut) ∨
    (∃ bad rest, bytes = bad ++ rest ∧ Stops bad rest ∧ front bytes = .bad bad.length) := by
  cases bytes with
  | nil => exact .inl ⟨rfl, rfl⟩
  | cons x a =>
    refine .inr ?_
    cases hx : tests? x with
    | none =>
      refine .inr (.inr ⟨[x], a, rfl, .of_front (.inl rfl) (front_of_none hx a) ?_, ?_⟩)
      · rintro (_ | ⟨y, p⟩) ⟨t, ht⟩ -
        · simp [front_nil]
        · obtain ⟨rfl, -⟩ := List.cons.inj ht
          simp [front_of_none hx]
      · exact front_of_none hx a
    | some tests =>
      obtain ⟨m, rest, rfl, hm⟩ | ⟨-, -, -, -, -, hf⟩ | ⟨m, y, rest, rfl, hcut, hbad⟩ :=
        follow_cases tests [x] a
      · refine .inl ⟨value (x :: m), rest, ?_, ?_⟩
        · rw [encodeChar_value hx hm, List.cons_append]
        · rw [encodeChar_value hx hm, front_of_some hx, follow_of_pass hm]
          rfl
      · have hf : front (x :: a) = .cut := by rw [front_of_some hx, hf]
        exact .inr (.inl ⟨begins_of_front hf, hf⟩)
      · rw [← front_of_some hx] at hcut hbad
        have hstop (t : List UInt8) : front (x :: (m ++ [y]) ++ t) = .bad (x :: m).length := by
          rw [front_append (by simp) (by rw [hbad]; simp), hbad]
          rfl
        have heq : x :: (m ++ y :: rest) = x :: (m ++ [y]) ++ rest := by simp
        refine .inr (.inr
          ⟨x :: m, y :: rest, rfl, .of_front (.inr (begins_of_front hcut)) ?_ ?_, ?_⟩)
        · rw [List.cons_append, heq, hstop]
        · intro p hp hlen
          rw [List.cons_append, heq] at hp
          obtain ⟨t, rfl⟩ := List.prefix_of_prefix_length_le (List.prefix_append _ _) hp
            (by simp at hlen ⊢; omega)
          rw [hstop]
          simp
        · rw [heq, hstop]

/-- No other bytes stop there. -/
theorem Stops.unique {bad' rest' : List UInt8} (h : Stops bad rest) (h' : Stops bad' rest')
    (heq : bad ++ rest = bad' ++ rest') : bad = bad' ∧ rest = rest' := by
  have hle : ∀ {a b c d : List UInt8}, Stops a b → Stops c d → a ++ b = c ++ d →
      c.length ≤ a.length := by
    intro a b c d hab hcd he
    rcases hcd.begins with hone | hbegin
    · have := List.length_pos_of_ne_nil hab.ne_nil
      omega
    · exact hab.longest c (he ▸ List.prefix_append c d) hbegin
  exact List.append_inj heq (Nat.le_antisymm (hle h' h heq.symm) (hle h h' heq))

theorem length_lt_of_ne_nil (h : a ≠ []) (b : List UInt8) : b.length < (a ++ b).length := by
  have := List.length_pos_of_ne_nil h
  rw [List.length_append]
  omega

theorem length_lt_encodeChar (c : Char) (rest : List UInt8) :
    rest.length < (String.utf8EncodeChar c ++ rest).length := by
  obtain ⟨x, m, -, hc, -⟩ := pass_encodeChar c
  exact length_lt_of_ne_nil (hc ▸ List.cons_ne_nil x m) rest

/-- Bytes are taken off from the front until there are none, or only a start of a character. -/
@[elab_as_elim]
theorem front_induction {motive : List UInt8 → Prop} (bytes : List UInt8) (nil : motive [])
    (char : ∀ c rest, motive rest → motive (String.utf8EncodeChar c ++ rest))
    (cut : ∀ bytes, Begins bytes → motive bytes)
    (bad : ∀ bad rest, Stops bad rest → front (bad ++ rest) = .bad bad.length → motive rest →
      motive (bad ++ rest)) :
    motive bytes := by
  induction hn : bytes.length using Nat.strongRecOn generalizing bytes with
  | _ n ih =>
    obtain ⟨rfl, -⟩ | ⟨c, rest, rfl, -⟩ | ⟨h, -⟩ | ⟨b, rest, rfl, hs, hf⟩ := front_cases bytes
    · exact nil
    · have hlen := length_lt_encodeChar c rest
      exact char c rest (ih _ (hn ▸ hlen) rest rfl)
    · exact cut bytes h
    · have hlen := length_lt_of_ne_nil hs.ne_nil rest
      exact bad b rest hs hf (ih _ (hn ▸ hlen) rest rfl)

/-! ## Decoding -/

theorem decodeWithin_congr {f g : Nat} (hf : bytes.length < f) (hg : bytes.length < g) :
    decodeWithin f bytes = decodeWithin g bytes := by
  induction f generalizing g bytes with
  | zero => cases hf
  | succ f ih =>
    obtain _ | g := g
    · cases hg
    simp only [decodeWithin]
    obtain ⟨rfl, h⟩ | ⟨c, rest, rfl, h⟩ | ⟨-, h⟩ | ⟨bad, rest, rfl, hs, h⟩ := front_cases bytes
    · simp only [h]
    · have hlen := length_lt_encodeChar c rest
      simp only [h, List.drop_left]
      rw [ih (g := g) (by omega) (by omega)]
    · simp only [h]
    · have hlen := length_lt_of_ne_nil hs.ne_nil rest
      simp only [h, List.drop_left]
      rw [ih (g := g) (by omega) (by omega)]

theorem decode_nil : decode [] = ([], []) := rfl

theorem decode_char (c : Char) (rest : List UInt8) :
    decode (String.utf8EncodeChar c ++ rest) = (c :: (decode rest).1, (decode rest).2) := by
  have hlen := length_lt_encodeChar c rest
  rw [decode, decodeWithin]
  simp only [front_encodeChar, List.drop_left]
  rw [decodeWithin_congr (g := rest.length + 1) (by omega) (by omega), ← decode]

theorem decode_of_begins (h : Begins bytes) : decode bytes = ([], bytes) := by
  simp only [decode, decodeWithin, h.front]

theorem decode_bad (hne : bad ≠ []) (hf : front (bad ++ rest) = .bad bad.length) :
    decode (bad ++ rest) = (replacement :: (decode rest).1, (decode rest).2) := by
  have hlen := length_lt_of_ne_nil hne rest
  rw [decode, decodeWithin]
  simp only [hf, List.drop_left]
  rw [decodeWithin_congr (g := rest.length + 1) (by omega) (by omega), ← decode]

/-- What the first bytes leave over is decoded with the bytes that follow them. -/
theorem decode_append (a b : List UInt8) :
    decode (a ++ b) =
      ((decode a).1 ++ (decode ((decode a).2 ++ b)).1, (decode ((decode a).2 ++ b)).2) := by
  induction a using front_induction with
  | nil => simp only [decode_nil, List.nil_append]
  | char c rest ih => rw [List.append_assoc, decode_char, ih, decode_char, List.cons_append]
  | cut a h => simp only [decode_of_begins h, List.nil_append]
  | bad bad rest hs hf ih =>
    have hf' : front (bad ++ (rest ++ b)) = .bad bad.length := by
      rw [← List.append_assoc, front_append (by simp [hs.ne_nil]) (by simp [hf]), hf]
    rw [List.append_assoc, decode_bad hs.ne_nil hf', ih, decode_bad hs.ne_nil hf, List.cons_append]

/-- A character that has not ended has at most three bytes. -/
theorem length_decode_snd (bytes : List UInt8) : (decode bytes).2.length ≤ 3 := by
  induction bytes using front_induction with
  | nil => simp [decode_nil]
  | char c rest ih => rwa [decode_char]
  | cut bytes h =>
    rw [decode_of_begins h]
    obtain ⟨-, c, tail, htail, hc⟩ := h
    have hlen : bytes.length + tail.length = c.utf8Size := by
      rw [← List.length_append, ← hc, String.length_utf8EncodeChar]
    have hsize := c.utf8Size_le_four
    have htail := List.length_pos_of_ne_nil htail
    show bytes.length ≤ 3
    omega
  | bad bad rest hs hf ih => rwa [decode_bad hs.ne_nil hf]

/-- If no text can be told yet, all bytes are kept. -/
theorem decode_snd_of_fst (h : (decode bytes).1 = []) : (decode bytes).2 = bytes := by
  induction bytes using front_induction with
  | nil => rfl
  | char c rest _ => simp [decode_char] at h
  | cut bytes hb => rw [decode_of_begins hb]
  | bad bad rest hs hf _ => simp [decode_bad hs.ne_nil hf] at h

theorem lossy_append (a b : List UInt8) :
    lossy (a ++ b) = (decode a).1 ++ lossy ((decode a).2 ++ b) := by
  simp only [lossy, decode_append a b]
  split
  · rfl
  · rw [List.append_assoc]

theorem lossy_nil : lossy [] = [] := rfl

theorem lossy_char (c : Char) (rest : List UInt8) :
    lossy (String.utf8EncodeChar c ++ rest) = c :: lossy rest := by
  simp only [lossy, decode_char]
  split <;> rfl

theorem lossy_of_begins (h : Begins bytes) : lossy bytes = [replacement] := by
  simp [lossy, decode_of_begins h, h.1]

theorem lossy_bad (hne : bad ≠ []) (hf : front (bad ++ rest) = .bad bad.length) :
    lossy (bad ++ rest) = replacement :: lossy rest := by
  simp only [lossy, decode_bad hne hf]
  split <;> rfl

/-- A character that has not ended at the end of all bytes stops there. -/
theorem Begins.stops (h : Begins bytes) : Stops bytes [] where
  ne_nil := h.1
  begins := .inr h
  not_char := by
    rintro c ⟨t, ht⟩
    have hc := front_encodeChar c t
    rw [ht, List.append_nil, h.front] at hc
    cases hc
  longest := fun p hp _ => List.append_nil bytes ▸ hp.length_le

theorem lossy_of_stops (h : Stops bad rest) : lossy (bad ++ rest) = replacement :: lossy rest := by
  obtain ⟨he, -⟩ | ⟨c, t, he, -⟩ | ⟨hb, -⟩ | ⟨bad', rest', he, hs, hf⟩ := front_cases (bad ++ rest)
  · exact absurd (List.append_eq_nil_iff.mp he).1 h.ne_nil
  · exact absurd ⟨t, he.symm⟩ (h.not_char c)
  · obtain ⟨-, rfl⟩ := h.unique hb.stops (List.append_nil _).symm
    rw [lossy_of_begins hb, lossy_nil]
  · obtain ⟨rfl, rfl⟩ := h.unique hs he
    exact lossy_bad hs.ne_nil (he ▸ hf)

/-- Bytes never vanish. -/
theorem lossy_ne_nil (h : bytes ≠ []) : lossy bytes ≠ [] := by
  obtain ⟨rfl, -⟩ | ⟨c, rest, rfl, -⟩ | ⟨hb, -⟩ | ⟨bad, rest, rfl, hs, -⟩ := front_cases bytes
  · exact absurd rfl h
  · simp [lossy_char]
  · simp [lossy_of_begins hb]
  · simp [lossy_of_stops hs]

/-- Decoding gives the one text that the encoding of characters allows. -/
theorem lossy_iff : Lossy bytes text ↔ text = lossy bytes := by
  constructor
  · intro h
    induction h with
    | nil => rfl
    | char c _ ih => rw [lossy_char, ih]
    | bad hs _ ih => rw [lossy_of_stops hs, ih]
  · rintro rfl
    induction bytes using front_induction with
    | nil => exact .nil
    | char c rest ih => exact lossy_char c rest ▸ .char c ih
    | cut bytes h =>
      have := Lossy.bad h.stops .nil
      rwa [List.append_nil, ← lossy_of_begins h] at this
    | bad bad rest hs hf ih => exact lossy_bad hs.ne_nil hf ▸ .bad hs ih

end Rill.Text.Utf8
