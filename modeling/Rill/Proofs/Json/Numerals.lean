import Rill.Proofs.Json.RoundTrip

/-!
# Numbers in a text

Where a number ends is decided by what follows it. A text that ends in a digit is read in the same
way whether it stands alone or before something that is no part of a number
(`extends_readNumber`), and the text of every numeral ends in a digit (`numberText_text`). So a
numeral in a longer text is read as `numeral?` reads its own text, or not at all.
-/

namespace Rill.Json

variable {rest cs : List Char} {negative : Bool} {n limit significand : Nat} {e : Int}

/-- The last character, if there is one, is a digit. -/
def Ended (cs : List Char) : Prop := ∀ c ∈ cs.getLast?, c.isDigit = true

/-- A reader takes `cs` from the front, and with `rest` behind it does the same and leaves `rest` as
well. Faults may differ in their places. -/
inductive Extends {α : Type} (cs rest : List Char) :
    Except Fault (α × List Char) → Except Fault (α × List Char) → Prop
  | fault {f f' : Fault} : Extends cs rest (.error f) (.error f')
  | ok {a : α} {left : List Char} (h : left <:+ cs) :
    Extends cs rest (.ok (a, left)) (.ok (a, left ++ rest))

theorem Extends.mono {α : Type} {cs' : List Char} {r r' : Except Fault (α × List Char)}
    (h : Extends cs rest r r') (hs : cs <:+ cs') : Extends cs' rest r r' := by
  cases h with
  | fault => exact .fault
  | ok h => exact .ok (h.trans hs)

theorem Ended.suffix {cs' : List Char} (h : Ended cs) (hs : cs' <:+ cs) : Ended cs' := by
  obtain ⟨before, rfl⟩ := hs
  intro c hc
  apply h
  rw [List.getLast?_append]
  simp only [Option.mem_def.mp hc, Option.mem_def, Option.some_or]

theorem Ended.tail {c : Char} (h : Ended (c :: cs)) : Ended cs := h.suffix (List.suffix_cons c cs)

theorem Ended.ne_nil {c : Char} (h : Ended (c :: cs)) (hc : c.isDigit = false) : cs ≠ [] := by
  rintro rfl
  have hdigit : c.isDigit = true := h c rfl
  rw [hc] at hdigit
  cases hdigit

theorem ended_append {before : List Char} (h : Ended cs) (hne : cs ≠ []) :
    Ended (before ++ cs) := by
  intro c hc
  obtain ⟨d, hd⟩ := Option.ne_none_iff_exists'.mp (mt List.getLast?_eq_none_iff.mp hne)
  rw [List.getLast?_append, hd, Option.some_or] at hc
  obtain rfl := Option.some.inj hc
  exact h d hd

/-! ## Digits -/

theorem startsWithDigit_append (hr : Apart rest) (cs : List Char) :
    startsWithDigit (cs ++ rest) = startsWithDigit cs := by
  cases cs with
  | nil => exact hr.startsWithDigit
  | cons c cs => rfl

theorem skipDigits_append (hr : Apart rest) (cs : List Char) :
    skipDigits (cs ++ rest) = skipDigits cs ++ rest := by
  induction cs with
  | nil =>
    cases rest with
    | nil => rfl
    | cons c cs =>
      have hc : digit? c = none := (hr c rfl).1
      simp only [skipDigits, List.nil_append, List.dropWhile_cons, List.dropWhile_nil, hc,
        Option.isSome_none, Bool.false_eq_true, ↓reduceIte]
  | cons c cs ih =>
    simp only [skipDigits] at ih
    simp only [skipDigits, List.cons_append, List.dropWhile_cons, ih]
    split <;> rfl

theorem gather_append (hr : Apart rest) (cs : List Char) (n : Nat) :
    gather limit n (cs ++ rest) = ((gather limit n cs).1, (gather limit n cs).2 ++ rest) := by
  induction cs generalizing n with
  | nil =>
    cases rest with
    | nil => rfl
    | cons c cs => simp only [List.nil_append, gather, (hr c rfl).1]
  | cons c cs ih =>
    simp only [List.cons_append, gather]
    cases digit? c with
    | none => rfl
    | some d =>
      dsimp only
      split
      · exact ih _
      · rfl

theorem gather_suffix (limit n : Nat) (cs : List Char) : (gather limit n cs).2 <:+ cs := by
  induction cs generalizing n with
  | nil => exact List.suffix_rfl
  | cons c cs ih =>
    simp only [gather]
    cases digit? c with
    | none => exact List.suffix_rfl
    | some d =>
      dsimp only
      split
      · exact (ih _).trans (List.suffix_cons c cs)
      · exact List.suffix_rfl

theorem skipDigits_suffix (cs : List Char) : skipDigits cs <:+ cs := List.dropWhile_suffix _

/-! ## Numbers -/

theorem extends_readDecimal (cs : List Char) :
    Extends cs rest (readDecimal negative significand e cs)
      (readDecimal negative significand e (cs ++ rest)) := by
  unfold readDecimal
  split
  · exact .ok List.suffix_rfl
  · exact .fault

/-- The digits of an exponent, after its sign. -/
def readPower (negative : Bool) (significand : Nat) (e : Int) (down : Bool) (cs : List Char) :
    Except Fault (Numeral × List Char) :=
  if cs.isEmpty then faultAt .endInValue cs
  else if !startsWithDigit cs then faultAt .invalidNumber cs
  else
    let (n, rest) := gather maxExponent 0 cs
    if startsWithDigit rest then
      if significand ≠ 0 ∧ !down then faultAt .numberOutOfRange rest
      else .ok (.float (if negative then -0.0 else 0.0), skipDigits rest)
    else readDecimal negative significand (if down then e - n else e + n) rest

/-- Whether an exponent has a minus sign, and what follows the sign. -/
def sign (cs : List Char) : Bool × List Char :=
  match cs with
  | '+' :: cs => (false, cs)
  | '-' :: cs => (true, cs)
  | cs => (false, cs)

theorem readExponent_sign (cs : List Char) :
    readExponent negative significand e cs =
      readPower negative significand e (sign cs).1 (sign cs).2 := rfl

/-- A sign is followed by the digits of the exponent. -/
theorem sign_append (hc : Ended cs) (hne : cs ≠ []) (rest : List Char) :
    ((sign cs).2 <:+ cs ∧ (sign cs).2 ≠ []) ∧
      sign (cs ++ rest) = ((sign cs).1, (sign cs).2 ++ rest) := by
  cases cs with
  | nil => exact absurd rfl hne
  | cons c cs =>
    by_cases hp : c = '+'
    · subst hp
      exact ⟨⟨List.suffix_cons _ _, hc.ne_nil rfl⟩, rfl⟩
    by_cases hm : c = '-'
    · subst hm
      exact ⟨⟨List.suffix_cons _ _, hc.ne_nil rfl⟩, rfl⟩
    have hsign (cs : List Char) : sign (c :: cs) = (false, c :: cs) := by
      unfold sign
      split
      · exact absurd (List.cons.inj ‹_›).1 hp
      · exact absurd (List.cons.inj ‹_›).1 hm
      · rfl
    rw [List.cons_append, hsign, hsign]
    exact ⟨⟨List.suffix_rfl, hne⟩, rfl⟩

theorem extends_readPower {down : Bool} (hr : Apart rest) (hne : cs ≠ []) :
    Extends cs rest (readPower negative significand e down cs)
      (readPower negative significand e down (cs ++ rest)) := by
  have hempty : (cs ++ rest).isEmpty = cs.isEmpty := by
    rw [List.isEmpty_eq_false_iff.mpr hne,
      List.isEmpty_eq_false_iff.mpr fun h => hne (List.append_eq_nil_iff.mp h).1]
  simp only [readPower, hempty, startsWithDigit_append hr, gather_append hr, skipDigits_append hr]
  split
  · exact .fault
  split
  · exact .fault
  split
  · split
    · exact .fault
    · exact .ok ((skipDigits_suffix _).trans (gather_suffix _ 0 cs))
  · exact (extends_readDecimal _).mono (gather_suffix _ 0 cs)

theorem extends_readExponent (hr : Apart rest) (hc : Ended cs) (hne : cs ≠ []) :
    Extends cs rest (readExponent negative significand e cs)
      (readExponent negative significand e (cs ++ rest)) := by
  obtain ⟨⟨hsuffix, hdigits⟩, hsign⟩ := sign_append hc hne rest
  rw [readExponent_sign, readExponent_sign, hsign]
  exact (extends_readPower hr hdigits).mono hsuffix

/-- What is no part of a number ends the number. -/
theorem readTail_apart (hr : Apart rest) :
    readTail negative significand e rest = readDecimal negative significand e rest := by
  unfold readTail
  split
  · exact absurd rfl (hr 'e' rfl).2.2.1
  · exact absurd rfl (hr 'E' rfl).2.2.2
  · rfl

theorem extends_readTail (hr : Apart rest) (hc : Ended cs) :
    Extends cs rest (readTail negative significand e cs)
      (readTail negative significand e (cs ++ rest)) := by
  cases cs with
  | nil =>
    rw [List.nil_append, readTail_apart hr]
    exact extends_readDecimal []
  | cons c cs =>
    by_cases he : c = 'e'
    · subst he
      exact (extends_readExponent hr hc.tail (hc.ne_nil rfl)).mono (List.suffix_cons _ cs)
    by_cases hE : c = 'E'
    · subst hE
      exact (extends_readExponent hr hc.tail (hc.ne_nil rfl)).mono (List.suffix_cons _ cs)
    have htail (cs : List Char) : readTail negative significand e (c :: cs) =
        readDecimal negative significand e (c :: cs) := by
      unfold readTail
      split
      · exact absurd (List.cons.inj ‹_›).1 he
      · exact absurd (List.cons.inj ‹_›).1 hE
      · rfl
    rw [List.cons_append, htail, htail]
    exact extends_readDecimal _

theorem extends_readFraction (hr : Apart rest) (hc : Ended cs) :
    Extends cs rest (readFraction negative significand e cs)
      (readFraction negative significand e (cs ++ rest)) := by
  have hleft : Ended (gather maxSignificand significand cs).2 := hc.suffix (gather_suffix _ _ cs)
  have hlen := (gather_suffix maxSignificand significand cs).length_le
  have htaken : (cs ++ rest).length - ((gather maxSignificand significand cs).2 ++ rest).length =
      cs.length - (gather maxSignificand significand cs).2.length := by
    simp only [List.length_append]
    omega
  simp only [readFraction, gather_append hr, htaken, startsWithDigit_append hr,
    skipDigits_append hr]
  split
  · have hskip := skipDigits_suffix (gather maxSignificand significand cs).2
    exact (extends_readTail hr (hleft.suffix hskip)).mono (hskip.trans (gather_suffix _ _ cs))
  · split
    · -- a fault in either case, and no more is asked
      split <;> split <;> exact .fault
    · exact (extends_readTail hr hleft).mono (gather_suffix _ _ cs)

/-- What may follow digits that raise the power of ten. -/
def readPoint (negative : Bool) (significand : Nat) (e : Int) (cs : List Char) :
    Except Fault (Numeral × List Char) :=
  match cs with
  | '.' :: rest => readFraction negative significand e rest
  | rest => readTail negative significand e rest

theorem readPoint_of_ne (h : ∀ c ∈ cs.head?, c ≠ '.') :
    readPoint negative significand e cs = readTail negative significand e cs := by
  unfold readPoint
  split
  · exact absurd rfl (h '.' rfl)
  · rfl

theorem extends_readPoint (hr : Apart rest) (hc : Ended cs) :
    Extends cs rest (readPoint negative significand e cs)
      (readPoint negative significand e (cs ++ rest)) := by
  cases cs with
  | nil =>
    rw [List.nil_append, readPoint_of_ne (by simp), readPoint_of_ne fun c h => (hr c h).2.1]
    exact extends_readTail hr hc
  | cons c cs =>
    by_cases hp : c = '.'
    · subst hp
      exact (extends_readFraction hr hc.tail).mono (List.suffix_cons _ cs)
    have hhead (cs : List Char) : ∀ d ∈ (c :: cs).head?, d ≠ '.' := by
      rintro d hd
      obtain rfl := Option.some.inj hd
      exact hp
    rw [List.cons_append, readPoint_of_ne (hhead _), readPoint_of_ne (hhead _)]
    exact extends_readTail hr hc

theorem readInteger_digits (h : startsWithDigit cs = true) :
    readInteger negative significand cs =
      readPoint negative significand ((cs.length - (skipDigits cs).length : Nat) : Int)
        (skipDigits cs) := by
  unfold readInteger
  rw [h]
  rfl

theorem extends_readInteger (hr : Apart rest) (hc : Ended cs) :
    Extends cs rest (readInteger negative significand cs)
      (readInteger negative significand (cs ++ rest)) := by
  by_cases hd : startsWithDigit cs = true
  · have hlen := (skipDigits_suffix cs).length_le
    have htaken : (cs ++ rest).length - (skipDigits cs ++ rest).length =
        cs.length - (skipDigits cs).length := by
      simp only [List.length_append]
      omega
    have hd' : startsWithDigit (cs ++ rest) = true := by rwa [startsWithDigit_append hr]
    rw [readInteger_digits hd, readInteger_digits hd', skipDigits_append hr, htaken]
    exact (extends_readPoint hr (hc.suffix (skipDigits_suffix cs))).mono (skipDigits_suffix cs)
  cases cs with
  | nil =>
    rw [List.nil_append, readInteger_of_apart hr]
    exact .ok List.suffix_rfl
  | cons c cs =>
    have hd : startsWithDigit (c :: cs) = false := Bool.not_eq_true _ ▸ hd
    have hd' (cs : List Char) : startsWithDigit (c :: cs) = false := hd
    by_cases hp : c = '.'
    · subst hp
      exact (extends_readFraction hr hc.tail).mono (List.suffix_cons _ cs)
    by_cases he : c = 'e'
    · subst he
      exact (extends_readExponent hr hc.tail (hc.ne_nil rfl)).mono (List.suffix_cons _ cs)
    by_cases hE : c = 'E'
    · subst hE
      exact (extends_readExponent hr hc.tail (hc.ne_nil rfl)).mono (List.suffix_cons _ cs)
    have hend (cs : List Char) : readInteger negative significand (c :: cs) =
        .ok (integer negative significand, c :: cs) := by
      unfold readInteger
      rw [hd' cs]
      simp only [Bool.false_eq_true, ↓reduceIte]
      split
      · exact absurd (List.cons.inj ‹_›).1 hp
      · exact absurd (List.cons.inj ‹_›).1 he
      · exact absurd (List.cons.inj ‹_›).1 hE
      · rfl
    rw [List.cons_append, hend, hend]
    exact .ok List.suffix_rfl

/-- A text that ends in a digit is read alike whatever follows it. -/
theorem extends_readNumber (hr : Apart rest) (hc : Ended cs) (hne : cs ≠ []) :
    Extends cs rest (readNumber negative cs) (readNumber negative (cs ++ rest)) := by
  cases cs with
  | nil => exact absurd rfl hne
  | cons c cs =>
    by_cases h0 : c = '0'
    · subst h0
      simp only [List.cons_append, readNumber, startsWithDigit_append hr]
      split
      · exact .fault
      · exact (extends_readInteger hr hc.tail).mono (List.suffix_cons _ cs)
    have hnumber (cs : List Char) : readNumber negative (c :: cs) =
        if startsWithDigit (c :: cs) then
          readInteger negative (gather maxSignificand 0 (c :: cs)).1
            (gather maxSignificand 0 (c :: cs)).2
        else faultAt .invalidNumber (c :: cs) := by
      unfold readNumber
      split
      · contradiction
      · exact absurd (List.cons.inj ‹_›).1 h0
      · rfl
    rw [List.cons_append, hnumber, hnumber, ← List.cons_append, startsWithDigit_append hr,
      gather_append hr]
    split
    · have hgather := gather_suffix maxSignificand 0 (c :: cs)
      exact (extends_readInteger hr (hc.suffix hgather)).mono hgather
    · exact .fault

/-- A number with its sign, if it has one. -/
def readSigned (cs : List Char) : Except Fault (Numeral × List Char) :=
  match cs with
  | '-' :: cs => readNumber true cs
  | cs => readNumber false cs

/-- The number that a whole text writes. -/
def numeral? (cs : List Char) : Option Numeral :=
  match readSigned cs with
  | .ok (n, []) => some n
  | _ => none

theorem readSigned_of_ne {c : Char} (h : c ≠ '-') (cs : List Char) :
    readSigned (c :: cs) = readNumber false (c :: cs) := by
  unfold readSigned
  split
  · exact absurd (List.cons.inj ‹_›).1 h
  · rfl

theorem extends_readSigned (hr : Apart rest) (hc : Ended cs) (hne : cs ≠ []) :
    Extends cs rest (readSigned cs) (readSigned (cs ++ rest)) := by
  cases cs with
  | nil => exact absurd rfl hne
  | cons c cs =>
    by_cases hm : c = '-'
    · subst hm
      exact (extends_readNumber hr hc.tail (hc.ne_nil rfl)).mono (List.suffix_cons _ cs)
    · have hnumber : Extends (c :: cs) rest (readNumber false (c :: cs))
          (readNumber false (c :: cs ++ rest)) := extends_readNumber hr hc hne
      rw [List.cons_append, readSigned_of_ne hm, readSigned_of_ne hm]
      exact hnumber

/-! ## Texts of numbers -/

/-- The characters of numbers. -/
def NumberChar (c : Char) : Prop := c.isDigit = true ∨ c ∈ ['+', '-', '.', 'e']

/-- A text made of the characters of numbers that begins and ends as a number does. -/
structure NumberText (cs : List Char) : Prop where
  head : ∃ c tail, cs = c :: tail ∧ (c = '-' ∨ c.isDigit = true)
  ended : Ended cs
  chars : ∀ c ∈ cs, NumberChar c

theorem NumberText.ne_nil (h : NumberText cs) : cs ≠ [] := by
  obtain ⟨c, tail, rfl, -⟩ := h.head
  exact List.cons_ne_nil c tail

theorem ended_digits (h : ∀ c ∈ cs, c.isDigit = true) : Ended cs :=
  fun _ hc => h _ (List.mem_of_getLast? hc)

theorem NumberText.digits (hne : cs ≠ []) (h : ∀ c ∈ cs, c.isDigit = true) : NumberText cs := by
  obtain ⟨c, tail, rfl⟩ := List.exists_cons_of_ne_nil hne
  exact ⟨⟨c, tail, rfl, .inr (h c List.mem_cons_self)⟩, ended_digits h, fun c hc => .inl (h c hc)⟩

/-- A digit, then characters of numbers, and digits at the end. -/
theorem NumberText.of_digits {c : Char} (mid : List Char) {ds : List Char} (hc : c.isDigit = true)
    (hm : ∀ c ∈ mid, NumberChar c) (hne : ds ≠ []) (hd : ∀ c ∈ ds, c.isDigit = true) :
    NumberText (c :: (mid ++ ds)) := by
  refine ⟨⟨c, _, rfl, .inr hc⟩, ?_, ?_⟩
  · have hended : Ended ((c :: mid) ++ ds) := ended_append (ended_digits hd) hne
    exact hended
  · intro d hmem
    rcases List.mem_cons.mp hmem with rfl | hmem
    · exact .inl hc
    · rcases List.mem_append.mp hmem with hmem | hmem
      · exact hm d hmem
      · exact .inl (hd d hmem)

theorem NumberText.minus (h : NumberText cs) : NumberText ('-' :: cs) := by
  refine ⟨⟨'-', cs, rfl, .inl rfl⟩, ?_, ?_⟩
  · have hended : Ended (['-'] ++ cs) := ended_append h.ended h.ne_nil
    exact hended
  · intro c hc
    rcases List.mem_cons.mp hc with rfl | hc
    · exact .inr (by decide)
    · exact h.chars c hc

theorem NumberText.append {cs' : List Char} (h : NumberText cs) (k : NumberText cs') :
    NumberText (cs ++ cs') := by
  obtain ⟨c, tail, hcs, hc⟩ := h.head
  refine ⟨⟨c, tail ++ cs', by rw [hcs]; rfl, hc⟩, ended_append k.ended k.ne_nil, fun d hd => ?_⟩
  exact (List.mem_append.mp hd).elim (h.chars d) (k.chars d)

theorem toDigits_ne_nil (n : Nat) : Nat.toDigits 10 n ≠ [] := by
  obtain ⟨c, cs, h, -⟩ := toDigits_head n
  rw [h]
  exact List.cons_ne_nil c cs

theorem numberText_digitsOf (n : Nat) : NumberText (Number.digitsOf n) :=
  .digits (toDigits_ne_nil n) isDigit_toDigits

theorem numberText_intText (n : Int) : NumberText (Number.intText n) := by
  rw [Number.intText]
  split
  · exact (numberText_digitsOf _).minus
  · exact numberText_digitsOf _

/-- A positional text of at least one has as many digits before the point as its first digit says,
and at least one after it. -/
theorem positionalLarge_cons {d : Char} {ds : List Char} (hds : ∀ c ∈ ds, c.isDigit = true)
    (e : Nat) : ∃ whole part, Number.positionalLarge (d :: ds) e = d :: (whole ++ '.' :: part) ∧
      part ≠ [] ∧ (∀ c ∈ whole ++ part, c.isDigit = true) ∧
      (whole ++ part).length ≤ max (e + 1) ds.length := by
  refine ⟨ds.take e ++ List.replicate (e + 1 - (ds.length + 1)) '0',
    if (ds.drop e).isEmpty then ['0'] else ds.drop e, ?_, ?_, fun c hc => ?_, ?_⟩
  · simp [Number.positionalLarge]
  · split
    · exact List.cons_ne_nil _ _
    next hne => simpa using hne
  · rcases List.mem_append.mp hc with hc | hc
    · rcases List.mem_append.mp hc with hc | hc
      · exact hds c (List.mem_of_mem_take hc)
      · rw [List.eq_of_mem_replicate hc]
        rfl
    · split at hc
      · rw [List.mem_singleton.mp hc]
        rfl
      · exact hds c (List.mem_of_mem_drop hc)
  · rw [List.length_append, List.length_append, List.length_take, List.length_replicate]
    split
    · rw [List.length_singleton]
      omega
    · rw [List.length_drop]
      omega

theorem numberText_positionalLarge {d : Char} {ds : List Char} (hd : d.isDigit = true)
    (hds : ∀ c ∈ ds, c.isDigit = true) (e : Nat) :
    NumberText (Number.positionalLarge (d :: ds) e) := by
  obtain ⟨whole, part, heq, hne, hdigits, -⟩ := positionalLarge_cons (d := d) hds e
  rw [heq, List.append_cons]
  refine .of_digits _ hd (fun c hc => ?_) hne fun c hc => hdigits c (List.mem_append_right _ hc)
  rcases List.mem_append.mp hc with hc | hc
  · exact .inl (hdigits c (List.mem_append_left _ hc))
  · obtain rfl := List.mem_singleton.mp hc
    exact .inr (by decide)

theorem numberText_positionalSmall {ds : List Char} (hne : ds ≠ [])
    (hds : ∀ c ∈ ds, c.isDigit = true) (e : Nat) : NumberText (Number.positionalSmall ds e) := by
  refine NumberText.of_digits ('.' :: List.replicate (e - 1) '0') rfl (fun c hc => ?_) hne hds
  rcases List.mem_cons.mp hc with rfl | hc
  · exact .inr (by decide)
  · obtain rfl := List.eq_of_mem_replicate hc
    exact .inl rfl

theorem numberText_scientific {d : Char} {ds : List Char} (hd : d.isDigit = true)
    (hds : ∀ c ∈ ds, c.isDigit = true) (e : Int) : NumberText (Number.scientific (d :: ds) e) := by
  have hsign : NumberChar (if e < 0 then '-' else '+') := by
    split <;> exact .inr (by decide)
  have hmark : ∀ c ∈ ['e', if e < 0 then '-' else '+'], NumberChar c := by
    intro c hc
    rcases List.mem_cons.mp hc with rfl | hc
    · exact .inr (by decide)
    · obtain rfl := List.mem_singleton.mp hc
      exact hsign
  cases ds with
  | nil => exact NumberText.of_digits _ hd hmark (toDigits_ne_nil _) isDigit_toDigits
  | cons d' ds =>
    have heq : Number.scientific (d :: d' :: ds) e =
        d :: (('.' :: (d' :: ds ++ ['e', if e < 0 then '-' else '+'])) ++
          Number.digitsOf e.natAbs) := by
      simp [Number.scientific]
    rw [heq]
    refine NumberText.of_digits _ hd (fun c hc => ?_) (toDigits_ne_nil _) isDigit_toDigits
    rcases List.mem_cons.mp hc with rfl | hc
    · exact .inr (by decide)
    · rcases List.mem_append.mp hc with hc | hc
      · exact .inl (hds c hc)
      · exact hmark c hc

theorem numberText_decimal (d : Number.Decimal) : NumberText d.text := by
  obtain ⟨c, cs, hds, -⟩ := toDigits_head d.digits
  have hdigits : ∀ c ∈ Number.digitsOf d.digits, c.isDigit = true := isDigit_toDigits
  have hhead : Number.digitsOf d.digits = c :: cs := hds
  rw [hhead] at hdigits
  have hc : c.isDigit = true := hdigits c List.mem_cons_self
  have hcs : ∀ d ∈ cs, d.isDigit = true := fun d hd => hdigits d (List.mem_cons_of_mem c hd)
  simp only [Number.Decimal.text, hhead]
  split
  · split
    · exact numberText_positionalLarge hc hcs _
    · exact numberText_positionalSmall (List.cons_ne_nil c cs) hdigits _
  · exact numberText_scientific hc hcs _

theorem numberText_floatText (x : Float) : NumberText (Number.floatText x) := by
  have hbody (m : Nat) (q : Int) :
      NumberText (if m = 0 then ['0', '.', '0'] else (Number.shortest m q).text) := by
    split
    · have hzero : NumberText ('0' :: (['.'] ++ ['0'])) := by
        refine .of_digits ['.'] rfl (fun c hc => ?_) (by simp) (by simp)
        obtain rfl := List.mem_singleton.mp hc
        exact .inr (by decide)
      exact hzero
    · exact numberText_decimal _
  simp only [Number.floatText]
  split
  · exact (hbody _ _).minus
  · exact hbody _ _

/-- Every numeral is written as a number is. -/
theorem numberText_text (n : Numeral) : NumberText n.text := by
  cases n with
  | int n => exact numberText_intText n
  | float x => exact numberText_floatText x

end Rill.Json
