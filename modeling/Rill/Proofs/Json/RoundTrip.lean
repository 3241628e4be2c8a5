import Rill.Proofs.Sorted
import Rill.Value.Basic

/-!
# Text that is read back

The compact text of a value whose numbers are integers of 64 bits and whose objects are sorted is
read as that value (`Json.Exact.read_render`), up to the depth at which reading gives up. The text
may be followed by anything that is not a part of a number (`Json.Apart`, `Json.Exact.reads`),
so that the texts of parts make up the text of the whole.
-/

namespace Rill

namespace Json

variable {rest : List Char} {n fuel depth : Nat} {ok : String → Prop}

/-- The integers of a value are stored exactly, its keys are sorted, it is at most so many lists and
objects deep, and `ok` holds of its texts and keys. -/
inductive Exact (ok : String → Prop) : Nat → Json → Prop
  | null {depth : Nat} : Exact ok depth .null
  | bool {depth : Nat} (b : Bool) : Exact ok depth (.bool b)
  | int {depth : Nat} {n : Int} (h : Numeral.minInt ≤ n ∧ n ≤ Numeral.maxInt) :
    Exact ok depth (.number (.int n))
  | string {depth : Nat} {s : String} (h : ok s) : Exact ok depth (.string s)
  | list {depth : Nat} {items : List Json} (h : ∀ j ∈ items, Exact ok depth j) :
    Exact ok (depth + 1) (.list items)
  | object {depth : Nat} {fields : List (String × Json)} (hs : fields.Pairwise (·.1 < ·.1))
    (hk : ∀ f ∈ fields, ok f.1) (h : ∀ f ∈ fields, Exact ok depth f.2) :
    Exact ok (depth + 1) (.object fields)

/-- What is not too deep is not too deep for a greater depth. -/
theorem Exact.mono {j : Json} (h : Exact ok depth j) (hn : depth ≤ n) : Exact ok n j := by
  induction h generalizing n with
  | null => exact .null
  | bool b => exact .bool b
  | int h => exact .int h
  | string h => exact .string h
  | list _ ih =>
    obtain _ | n := n
    · cases hn
    · exact .list fun j hj => ih j hj (by omega)
  | object hs hk _ ih =>
    obtain _ | n := n
    · cases hn
    · exact .object hs hk fun f hf => ih f hf (by omega)

/-- No number goes on with these characters. -/
def Apart (rest : List Char) : Prop :=
  ∀ c ∈ rest.head?, digit? c = none ∧ c ≠ '.' ∧ c ≠ 'e' ∧ c ≠ 'E'

/-! ## Numbers -/

theorem digit?_of_isDigit {c : Char} (h : c.isDigit = true) :
    digit? c = some (c.toNat - '0'.toNat) := by
  simp only [Char.isDigit, Bool.and_eq_true, decide_eq_true_eq] at h
  exact if_pos ⟨h.1, h.2⟩

theorem isSpace_of_isDigit {c : Char} (h : c.isDigit = true) : isSpace c = false := by
  simp only [isSpace, Bool.or_eq_false_iff, beq_eq_false_iff_ne]
  refine ⟨⟨⟨?_, ?_⟩, ?_⟩, ?_⟩ <;> rintro rfl <;> exact absurd h (by decide)

theorem Apart.startsWithDigit (h : Apart rest) : startsWithDigit rest = false := by
  cases rest with
  | nil => rfl
  | cons c cs => simp only [Json.startsWithDigit, (h c rfl).1, Option.isSome_none]

theorem le_ofDigitChars (ds : List Char) (a : Nat) : a ≤ Nat.ofDigitChars 10 ds a := by
  induction ds generalizing a with
  | nil => simp
  | cons c cs ih =>
    have := ih (10 * a + (c.toNat - '0'.toNat))
    rw [Nat.ofDigitChars_cons]
    omega

/-- All digits are gathered, if the number that they write is within the limit. -/
theorem gather_digits {limit a : Nat} {ds : List Char} (hd : ∀ c ∈ ds, c.isDigit = true)
    (hl : Nat.ofDigitChars 10 ds a ≤ limit) (hr : startsWithDigit rest = false) :
    gather limit a (ds ++ rest) = (Nat.ofDigitChars 10 ds a, rest) := by
  induction ds generalizing a with
  | nil =>
    rw [Nat.ofDigitChars_nil, List.nil_append]
    cases rest with
    | nil => rfl
    | cons c cs =>
      have hc : digit? c = none := Option.not_isSome_iff_eq_none.mp (Bool.eq_false_iff.mp hr)
      simp only [gather, hc]
  | cons c cs ih =>
    rw [Nat.ofDigitChars_cons] at hl ⊢
    have hle := le_ofDigitChars cs (10 * a + (c.toNat - '0'.toNat))
    rw [List.cons_append, gather, digit?_of_isDigit (hd c List.mem_cons_self)]
    simp only [Nat.mul_comm a 10]
    rw [if_pos (by omega), ih (fun d h => hd d (List.mem_cons_of_mem _ h)) hl]

/-- Only zero is written with a zero in front. -/
theorem toDigits_head (n : Nat) : ∃ c cs, Nat.toDigits 10 n = c :: cs ∧ (0 < n → c ≠ '0') := by
  induction n using Nat.strongRecOn with
  | _ n ih =>
    rw [Nat.toDigits_eq_if (by decide)]
    split
    · rename_i hn
      have hdigit : ∀ k < 10, 0 < k → k.digitChar ≠ '0' := by decide
      exact ⟨_, _, rfl, hdigit n hn⟩
    · obtain ⟨c, cs, hc, hne⟩ := ih (n / 10) (by omega)
      exact ⟨c, cs ++ [(n % 10).digitChar], by rw [hc]; rfl, fun _ => hne (by omega)⟩

theorem isDigit_toDigits : ∀ c ∈ Nat.toDigits 10 n, c.isDigit = true :=
  fun _ hc => Nat.isDigit_of_mem_toDigits (by decide) (by decide) hc

theorem readInteger_of_apart {negative : Bool} (hr : Apart rest) :
    readInteger negative n rest = .ok (integer negative n, rest) := by
  unfold readInteger
  rw [hr.startsWithDigit]
  simp only [Bool.false_eq_true, ↓reduceIte]
  split
  · exact absurd rfl (hr '.' rfl).2.1
  · exact absurd rfl (hr 'e' rfl).2.2.1
  · exact absurd rfl (hr 'E' rfl).2.2.2
  · rfl

@[simp] theorem startsWithDigit_nil : startsWithDigit [] = false := rfl

theorem startsWithDigit_cons {c : Char} (h : c.isDigit = true) (cs : List Char) :
    startsWithDigit (c :: cs) = true := by
  rw [startsWithDigit, digit?_of_isDigit h]
  rfl

/-- Digits that do not begin with a zero are read together. -/
theorem readNumber_leading (negative : Bool) {c : Char} {cs : List Char}
    (hd : ∀ d ∈ c :: cs, d.isDigit = true) (hc : c ≠ '0')
    (hl : Nat.ofDigitChars 10 (c :: cs) 0 ≤ maxSignificand) (hr : startsWithDigit rest = false) :
    readNumber negative (c :: cs ++ rest) =
      readInteger negative (Nat.ofDigitChars 10 (c :: cs) 0) rest := by
  have hdigit := startsWithDigit_cons (hd c List.mem_cons_self) (cs ++ rest)
  have hgather := gather_digits hd hl hr
  rw [List.cons_append] at hgather ⊢
  unfold readNumber
  split
  · contradiction
  · rename_i heq
    exact absurd (List.cons.inj heq).1 hc
  · rw [hdigit, if_pos rfl, hgather]

theorem readNumber_digits {negative : Bool} (hn : n ≤ maxSignificand)
    (hr : startsWithDigit rest = false) :
    readNumber negative (Nat.toDigits 10 n ++ rest) = readInteger negative n rest := by
  rcases Nat.eq_zero_or_pos n with rfl | hpos
  · rw [Nat.toDigits_zero]
    simp only [List.cons_append, List.nil_append, readNumber, hr, Bool.false_eq_true, ↓reduceIte]
  · obtain ⟨c, cs, hc, hne⟩ := toDigits_head n
    have hvalue : Nat.ofDigitChars 10 (c :: cs) 0 = n := hc ▸ Nat.ofDigitChars_ten_toDigits
    have hread := readNumber_leading negative (hc ▸ isDigit_toDigits) (hne hpos)
      (by rwa [hvalue]) hr
    rwa [hvalue, ← hc] at hread

/-! ## Texts -/

theorem hexDigit?_digitChar : ∀ k < 16, hexDigit? k.digitChar = some k := by decide

theorem readHex_hexPair (hn : n < 256) :
    readHex ('0' :: '0' :: (hexPair n ++ rest)) = .ok (n, rest) := by
  have hsize : ¬ size ('0' :: '0' :: (hexPair n ++ rest)) < 4 := by
    have := (n / 16).digitChar.utf8Size_pos
    have := (n % 16).digitChar.utf8Size_pos
    simp only [size, hexPair, List.cons_append, List.nil_append, List.foldr_cons,
      show '0'.utf8Size = 1 from rfl]
    omega
  have hfour : hexFour? ('0' :: '0' :: (hexPair n ++ rest)) = some (n, rest) := by
    simp only [hexFour?, hexPair, List.cons_append, List.nil_append,
      hexDigit?_digitChar (n / 16) (by omega), hexDigit?_digitChar (n % 16) (by omega),
      show hexDigit? '0' = some 0 from rfl, Option.bind_eq_bind, Option.bind_some,
      Option.pure_def, Option.some.injEq, Prod.mk.injEq, and_true]
    omega
  rw [readHex, if_neg hsize, hfour]

theorem readCode_hexPair (hn : n < 0x20) :
    readCode ('0' :: '0' :: (hexPair n ++ rest)) = .ok (Char.ofNat n, rest) := by
  rw [readCode, readHex_hexPair (by omega)]
  show (if 0xdc00 ≤ n ∧ n ≤ 0xdfff then _ else _) = _
  rw [if_neg (by omega), if_neg (by omega)]
  rfl

theorem readString_backslash {c : Char} {cs cs' s : List Char} (h : readEscape cs = .ok (c, cs'))
    (k : readString fuel cs' = .ok (s, rest)) :
    readString (fuel + 1) ('\\' :: cs) = .ok (c :: s, rest) := by
  simp only [readString, h, bind, Except.bind, k, pure, Except.pure]

/-- An escaped character is read as itself, in one step. -/
theorem readString_escaped (c : Char) {cs s : List Char} (k : readString fuel cs = .ok (s, rest)) :
    readString (fuel + 1) (escaped c ++ cs) = .ok (c :: s, rest) := by
  unfold escaped
  split
  iterate 7 exact readString_backslash rfl k
  rename_i hquote hslash _ _ _ _ _
  split
  · rename_i hc
    have hcode : readCode ('0' :: '0' :: (hexPair c.toNat ++ cs)) = .ok (Char.ofNat c.toNat, cs) :=
      readCode_hexPair hc
    rw [Char.ofNat_toNat] at hcode
    exact readString_backslash hcode k
  · rename_i hc
    simp only [List.cons_append, List.nil_append]
    rw [readString]
    · rw [if_neg hc]
      simp only [bind, Except.bind, k, pure, Except.pure]
    · exact hquote
    · exact hslash

/-- A text is read back, if there is a step for each of its characters and one for the quote. -/
theorem readString_chars (s : List Char) (h : s.length < fuel) :
    readString fuel (s.flatMap escaped ++ '"' :: rest) = .ok (s, rest) := by
  induction s generalizing fuel with
  | nil =>
    obtain _ | fuel := fuel
    · cases h
    · rfl
  | cons c s ih =>
    obtain _ | fuel := fuel
    · cases h
    · rw [List.flatMap_cons, List.append_assoc]
      exact readString_escaped c (ih (by simpa using h))

theorem length_le_chars (s : String) : s.toList.length + 2 ≤ (stringText s).length := by
  have hne (c : Char) : 1 ≤ (escaped c).length := by
    unfold escaped
    split <;> first | decide | (split <;> simp)
  have hle (cs : List Char) : cs.length ≤ (cs.flatMap escaped).length := by
    induction cs with
    | nil => simp
    | cons c cs ih =>
      have := hne c
      simp only [List.length_cons, List.flatMap_cons, List.length_append]
      omega
  have := hle s.toList
  simp only [stringText, List.length_cons, List.length_append, List.length_nil]
  omega

/-! ## Lists and objects -/

/-- The text of a field. -/
def fieldText (f : String × Json) : List Char := stringText f.1 ++ ':' :: chars f.2

theorem itemChars_cons (x : Json) (xs : List Json) :
    itemChars (x :: xs) = chars x ++ xs.flatMap fun y => ',' :: chars y := by
  induction xs generalizing x with
  | nil => simp [itemChars]
  | cons y ys ih => rw [itemChars, ih, List.flatMap_cons, List.cons_append]

theorem fieldChars_cons (f : String × Json) (fs : List (String × Json)) :
    fieldChars (f :: fs) = fieldText f ++ fs.flatMap fun g => ',' :: fieldText g := by
  induction fs generalizing f with
  | nil => simp [fieldChars, fieldText]
  | cons g gs ih =>
    rw [fieldChars, ih, List.flatMap_cons, fieldText]
    simp [fieldText]

/-- The first character of a value is in front: it is no blank and closes no list. -/
def Starts (cs : List Char) : Prop := ∃ c tail, cs = c :: tail ∧ isSpace c = false ∧ c ≠ ']'

theorem skipSpace_cons {c : Char} (h : isSpace c = false) (cs : List Char) :
    skipSpace (c :: cs) = c :: cs := by
  rw [skipSpace, List.dropWhile_cons, h]
  rfl

section

variable {first : Bool} {cs cs' cs'' : List Char} {x : Json} {xs : List Json} {fields : Sorted Json}

theorem readItems_end : readItems (fuel + 1) depth first (']' :: rest) = .ok ([], rest) := rfl

/-- Before an item comes what may stand there. -/
theorem readItems_item (hs : Starts cs)
    (hc : (if first then .ok ((), cs) else readItemComma cs) = .ok ((), cs'))
    (h : readValue fuel depth cs' = .ok (x, cs''))
    (k : readItems fuel depth false cs'' = .ok (xs, rest)) :
    readItems (fuel + 1) depth first cs = .ok (x :: xs, rest) := by
  obtain ⟨c, tail, rfl, hspace, hne⟩ := hs
  simp only [readItems, skipSpace_cons hspace]
  split
  · contradiction
  · rename_i heq
    exact absurd (List.cons.inj heq).1 hne
  · cases first with
    | true =>
      obtain rfl : c :: tail = cs' := by simpa using hc
      simp only [↓reduceIte, bind, Except.bind, h, k, pure, Except.pure]
    | false =>
      have hc : readItemComma (c :: tail) = .ok ((), cs') := hc
      simp only [Bool.false_eq_true, ↓reduceIte, hc, bind, Except.bind, h, k, pure, Except.pure]

theorem readItemComma_cons (hs : Starts cs) : readItemComma (',' :: cs) = .ok ((), cs) := by
  obtain ⟨c, tail, rfl, hspace, hne⟩ := hs
  simp only [readItemComma, skipSpace_cons hspace]
  split
  · contradiction
  · rename_i heq
    exact absurd (List.cons.inj heq).1 hne
  · rfl

theorem readFields_end :
    readFields (fuel + 1) depth first fields ('\x7d' :: rest) = .ok (fields, rest) := rfl

/-- Before a field comes what may stand there, and the quote that opens its key. -/
theorem readFields_field {c : Char} {key : List Char} (hspace : isSpace c = false)
    (hne : c ≠ '\x7d') (hquote : readKeyQuote first (c :: cs) = .ok ((), cs'))
    (hkey : readString (fuel + 1) cs' = .ok (key, ':' :: cs''))
    (h : readValue fuel depth cs'' = .ok (x, rest)) :
    readFields (fuel + 1) depth first fields (c :: cs) =
      readFields fuel depth false (Sorted.insert (String.ofList key) x fields) rest := by
  have hcolon : readColon (':' :: cs'') = .ok ((), cs'') := rfl
  simp only [readFields, skipSpace_cons hspace]
  split
  · contradiction
  · rename_i heq
    exact absurd (List.cons.inj heq).1 hne
  · simp only [hquote, bind, Except.bind, hkey, hcolon, h]

end

/-! ## Values -/

/-- The text of `j` is read as `j` wherever it stands. -/
def Reads (depth : Nat) (j : Json) : Prop :=
  Starts (chars j) ∧ ∀ ⦃fuel rest⦄, 2 * (chars j).length ≤ fuel → Apart rest →
    readValue fuel depth (chars j ++ rest) = .ok (j, rest)

theorem apart_cons {c : Char} (hd : digit? c = none) (hp : c ≠ '.') (he : c ≠ 'e') (hE : c ≠ 'E')
    (cs : List Char) : Apart (c :: cs) := by
  rintro d hd'
  obtain rfl := Option.some.inj hd'
  exact ⟨hd, hp, he, hE⟩

theorem Starts.append {a : List Char} (h : Starts a) (b : List Char) : Starts (a ++ b) := by
  obtain ⟨c, tail, rfl, hc, hne⟩ := h
  exact ⟨c, tail ++ b, rfl, hc, hne⟩

theorem Starts.length_pos {a : List Char} (h : Starts a) : 0 < a.length := by
  obtain ⟨c, tail, rfl, -⟩ := h
  simp

theorem apart_flatMap {α : Type} (xs : List α) {text : α → List Char} {c : Char}
    (hc : Apart (c :: rest)) : Apart ((xs.flatMap fun x => ',' :: text x) ++ c :: rest) := by
  cases xs with
  | nil => exact hc
  | cons y ys => exact apart_cons rfl (by decide) (by decide) (by decide) _

/-- What follows an item: a comma and another, or the end of the list. -/
theorem readItems_reads {items : List Json} (h : ∀ j ∈ items, Reads depth j)
    (hf : 2 * ((items.flatMap fun y => ',' :: chars y).length + 1) ≤ fuel) :
    readItems fuel depth false ((items.flatMap fun y => ',' :: chars y) ++ ']' :: rest) =
      .ok (items, rest) := by
  induction items generalizing fuel with
  | nil =>
    obtain _ | fuel := fuel
    · simp at hf
    · exact readItems_end
  | cons x xs ih =>
    obtain ⟨hx, hread⟩ := h x List.mem_cons_self
    obtain _ | fuel := fuel
    · simp at hf
    have hpos := hx.length_pos
    simp only [List.flatMap_cons, List.cons_append, List.length_cons, List.length_append] at hf
    rw [List.flatMap_cons, List.cons_append, List.cons_append, List.append_assoc]
    exact readItems_item ⟨',', _, rfl, rfl, by decide⟩ (readItemComma_cons (hx.append _))
      (hread (by omega) (apart_flatMap xs (apart_cons rfl (by decide) (by decide) (by decide) _)))
      (ih (fun j hj => h j (List.mem_cons_of_mem _ hj)) (by omega))

/-- A field is read, if there is a step for each of its characters. -/
theorem readFields_text {first : Bool} {c : Char} {cs : List Char} {f : String × Json}
    {fields : Sorted Json} (hread : Reads depth f.2) (hspace : isSpace c = false) (hne : c ≠ '\x7d')
    (hquote : readKeyQuote first (c :: cs) = .ok ((), (fieldText f).tail ++ rest))
    (hf : 2 * (fieldText f).length ≤ fuel + 1) (hr : Apart rest) :
    readFields (fuel + 1) depth first fields (c :: cs) =
      readFields fuel depth false (Sorted.insert f.1 f.2 fields) rest := by
  have hlen := length_le_chars f.1
  simp only [fieldText, List.length_append, List.length_cons] at hf
  have htext : (fieldText f).tail ++ rest =
      f.1.toList.flatMap escaped ++ '"' :: ':' :: (chars f.2 ++ rest) := by
    simp [fieldText, stringText]
  rw [htext] at hquote
  rw [readFields_field hspace hne hquote (readString_chars _ (by omega)) (hread.2 (by omega) hr),
    String.ofList_toList]

/-- What follows a field: a comma and another, or the end of the object. -/
theorem readFields_reads {fields before : Sorted Json} (h : ∀ f ∈ fields, Reads depth f.2)
    (hs : (before ++ fields).Pairwise (·.1 < ·.1))
    (hf : 2 * ((fields.flatMap fun g => ',' :: fieldText g).length + 1) ≤ fuel) :
    readFields fuel depth false before
        ((fields.flatMap fun g => ',' :: fieldText g) ++ '\x7d' :: rest) =
      .ok (before ++ fields, rest) := by
  induction fields generalizing fuel before with
  | nil =>
    obtain _ | fuel := fuel
    · simp at hf
    · rw [List.append_nil]
      exact readFields_end
  | cons f fs ih =>
    obtain _ | fuel := fuel
    · simp at hf
    have hlen := length_le_chars f.1
    simp only [List.flatMap_cons, List.cons_append, List.length_cons, List.length_append] at hf
    rw [List.flatMap_cons, List.cons_append, List.cons_append, List.append_assoc,
      readFields_text (h f List.mem_cons_self) rfl (by decide) rfl (by omega)
        (apart_flatMap fs (apart_cons rfl (by decide) (by decide) (by decide) _)),
      Sorted.insert_of_lt fun e he => (List.pairwise_append.mp hs).2.2 e he f List.mem_cons_self]
    have hs' : (before ++ [f] ++ fs).Pairwise (·.1 < ·.1) := by
      rwa [List.append_assoc]
    have hpos : 0 < (fieldText f).length := by simp [fieldText, stringText]
    rw [ih (fun g hg => h g (List.mem_cons_of_mem _ hg)) hs' (by omega), List.append_assoc]
    rfl

theorem readValue_list {cs : List Char} {items : List Json}
    (h : readItems fuel depth true cs = .ok (items, rest)) :
    readValue (fuel + 1) (depth + 1) ('[' :: cs) = .ok (.list items, rest) := by
  show (readItems fuel depth true cs >>= fun r => pure (Json.list r.1, r.2)) = _
  rw [h]
  rfl

theorem readValue_object {cs : List Char} {fields : Sorted Json}
    (h : readFields fuel depth true [] cs = .ok (fields, rest)) :
    readValue (fuel + 1) (depth + 1) ('\x7b' :: cs) = .ok (.object fields, rest) := by
  show (readFields fuel depth true [] cs >>= fun r => pure (Json.object r.1, r.2)) = _
  rw [h]
  rfl

theorem readValue_string {cs s : List Char} (h : readString (fuel + 1) cs = .ok (s, rest)) :
    readValue (fuel + 1) depth ('"' :: cs) = .ok (.string (String.ofList s), rest) := by
  show (readString (fuel + 1) cs >>= fun r => pure (Json.string (String.ofList r.1), r.2)) = _
  rw [h]
  rfl

theorem readValue_negative {cs : List Char} {m : Numeral} (h : readNumber true cs = .ok (m, rest)) :
    readValue (fuel + 1) depth ('-' :: cs) = .ok (.number m, rest) := by
  show (readNumber true cs >>= fun r => pure (Json.number r.1, r.2)) = _
  rw [h]
  rfl

theorem readValue_digit {c : Char} {cs : List Char} {m : Numeral} (hc : c.isDigit = true)
    (h : readNumber false (c :: cs) = .ok (m, rest)) :
    readValue (fuel + 1) depth (c :: cs) = .ok (.number m, rest) := by
  have hspace : isSpace c = false := isSpace_of_isDigit hc
  simp only [readValue, skipSpace_cons hspace]
  split
  any_goals
    rename_i heq
    obtain ⟨rfl, -⟩ := List.cons.inj heq
    exact absurd hc (by decide)
  · contradiction
  · rw [startsWithDigit, digit?_of_isDigit hc]
    simp only [Option.isSome_some, ↓reduceIte, bind, Except.bind, h, pure, Except.pure]

theorem reads_int {k : Int} (h : Numeral.minInt ≤ k ∧ k ≤ Numeral.maxInt) :
    Reads depth (.number (.int k)) := by
  have hmin : -0x8000000000000000 ≤ k := h.1
  have hmax : k ≤ 0xffffffffffffffff := h.2
  have hsig : k.natAbs ≤ maxSignificand := by
    show k.natAbs ≤ 0xffffffffffffffff
    omega
  by_cases hk : k < 0
  · have hchars : chars (.number (.int k)) = '-' :: Nat.toDigits 10 k.natAbs := by
      rw [chars, Numeral.text, Number.intText, if_pos hk, Number.digitsOf]
    rw [Reads, hchars]
    refine ⟨⟨_, _, rfl, rfl, by decide⟩, fun fuel rest hf hr => ?_⟩
    obtain _ | fuel := fuel
    · simp at hf
    have hint : integer true k.natAbs = .int k := by
      rw [integer, if_neg (by decide), if_pos (by omega)]
      congr 1
      omega
    rw [← hint]
    exact readValue_negative
      ((readNumber_digits hsig hr.startsWithDigit).trans (readInteger_of_apart hr))
  · have hchars : chars (.number (.int k)) = Nat.toDigits 10 k.natAbs := by
      rw [chars, Numeral.text, Number.intText, if_neg hk, Number.digitsOf]
    have hint : integer false k.natAbs = .int k := by
      rw [integer, if_pos (by decide)]
      congr 1
      omega
    obtain ⟨c, cs, hc, -⟩ := toDigits_head k.natAbs
    have hdigit : c.isDigit = true := isDigit_toDigits c (hc ▸ List.mem_cons_self)
    rw [Reads, hchars]
    refine ⟨⟨c, cs, hc, isSpace_of_isDigit hdigit, ?_⟩, fun fuel rest hf hr => ?_⟩
    · rintro rfl
      exact absurd hdigit (by decide)
    · obtain _ | fuel := fuel
      · simp [hc] at hf
      have hread : readNumber false (Nat.toDigits 10 k.natAbs ++ rest) =
          .ok (integer false k.natAbs, rest) :=
        (readNumber_digits hsig hr.startsWithDigit).trans (readInteger_of_apart hr)
      rw [hc, List.cons_append, hint] at hread
      rw [hc]
      exact readValue_digit hdigit hread

theorem reads_string (s : String) : Reads depth (.string s) := by
  have hlen := length_le_chars s
  refine ⟨⟨_, _, rfl, rfl, by decide⟩, fun fuel rest hf _ => ?_⟩
  rw [chars] at hf ⊢
  obtain _ | fuel := fuel
  · omega
  have hread : readValue (fuel + 1) depth ('"' :: (s.toList.flatMap escaped ++ '"' :: rest)) =
      .ok (.string (String.ofList s.toList), rest) :=
    readValue_string (readString_chars s.toList (by omega))
  rw [String.ofList_toList] at hread
  simpa [stringText] using hread

theorem reads_list {items : List Json} (h : ∀ j ∈ items, Reads depth j) :
    Reads (depth + 1) (.list items) := by
  refine ⟨⟨'[', itemChars items ++ [']'], by rw [chars], rfl, by decide⟩, fun fuel rest hf _ => ?_⟩
  rw [chars] at hf ⊢
  simp only [List.length_cons, List.length_append, List.length_nil] at hf
  obtain _ | fuel := fuel
  · omega
  rw [List.cons_append, List.append_assoc]
  refine readValue_list ?_
  cases items with
  | nil =>
    obtain _ | fuel := fuel
    · omega
    · exact readItems_end
  | cons x xs =>
    obtain ⟨hx, hread⟩ := h x List.mem_cons_self
    have hpos := hx.length_pos
    rw [itemChars_cons, List.length_append] at hf
    rw [itemChars_cons, List.append_assoc]
    obtain _ | fuel := fuel
    · omega
    exact readItems_item (hx.append _) rfl
      (hread (by omega) (apart_flatMap xs (apart_cons rfl (by decide) (by decide) (by decide) _)))
      (readItems_reads (fun j hj => h j (List.mem_cons_of_mem _ hj)) (by omega))

theorem reads_object {fields : Sorted Json} (hs : fields.Pairwise (·.1 < ·.1))
    (h : ∀ f ∈ fields, Reads depth f.2) : Reads (depth + 1) (.object fields) := by
  refine ⟨⟨'\x7b', fieldChars fields ++ ['\x7d'], by rw [chars], rfl, by decide⟩,
    fun fuel rest hf _ => ?_⟩
  rw [chars] at hf ⊢
  simp only [List.length_cons, List.length_append, List.length_nil] at hf
  obtain _ | fuel := fuel
  · omega
  rw [List.cons_append, List.append_assoc]
  refine readValue_object ?_
  cases fields with
  | nil =>
    obtain _ | fuel := fuel
    · omega
    · exact readFields_end
  | cons f fs =>
    have hpos : 0 < (fieldText f).length := by simp [fieldText, stringText]
    rw [fieldChars_cons, List.length_append] at hf
    rw [fieldChars_cons, List.append_assoc]
    obtain _ | fuel := fuel
    · omega
    have htext : fieldText f = '"' :: (fieldText f).tail := by simp [fieldText, stringText]
    rw [htext, List.cons_append, readFields_text (h f List.mem_cons_self) rfl (by decide) rfl
      (by omega) (apart_flatMap fs (apart_cons rfl (by decide) (by decide) (by decide) _))]
    exact readFields_reads (fun g hg => h g (List.mem_cons_of_mem _ hg)) hs (by omega)

theorem Exact.reads {j : Json} (h : Exact ok depth j) : Reads depth j := by
  induction h with
  | null =>
    refine ⟨⟨_, _, rfl, rfl, by decide⟩, fun fuel rest hf _ => ?_⟩
    obtain _ | fuel := fuel
    · simp [chars] at hf
    · rfl
  | bool b =>
    refine ⟨by cases b <;> exact ⟨_, _, rfl, rfl, by decide⟩, fun fuel rest hf _ => ?_⟩
    obtain _ | fuel := fuel
    · cases b <;> simp [chars] at hf
    · cases b <;> rfl
  | int h => exact reads_int h
  | @string _ s _ => exact reads_string s
  | list _ ih => exact reads_list ih
  | object hs _ _ ih => exact reads_object hs ih

/-- The text of a value is read as the value. -/
theorem Exact.read_render {j : Json} (h : Exact ok maxDepth j) : read j.render = .ok j := by
  have hread : readValue (2 * (chars j).length + 1) maxDepth (chars j ++ []) = .ok (j, []) :=
    h.reads.2 (by omega) nofun
  rw [List.append_nil] at hread
  have hall : readAll (chars j) = .ok j := by
    rw [readAll, hread]
    rfl
  rw [read, render, String.toList_ofList, hall]

theorem Exact.value_read {j : Json} (h : Exact ok maxDepth j) :
    Value.read j.render = .ok (.json j) := by
  rw [Value.read, h.read_render]

end Json

end Rill
