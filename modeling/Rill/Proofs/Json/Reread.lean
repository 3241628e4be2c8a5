import Rill.Proofs.Json.Numerals
import Rill.Value.Basic

/-!
# What a text is read as

The compact text of a value need not be read as that value: a numeral may come back as its
neighbour, a later field replaces an earlier one with the same key, and what is too deep is not read
at all. `reread` says for every value what its text is read as, wherever it stands
(`readsAs_reread`); for the values of `Exact` that is the value itself (`Exact.reread_eq`).

The lemmas about lists and objects are stated for the texts of their parts, whatever those are.
-/

namespace Rill.Json

variable {rest cs : List Char} {fuel depth : Nat} {o : Option Json} {ok : String → Prop}

instance : DecidablePred NumberChar := fun _ => inferInstanceAs (Decidable (_ ∨ _))

theorem NumberChar.ne {c d : Char} (h : NumberChar c) (hd : ¬ NumberChar d) : c ≠ d :=
  fun e => hd (e ▸ h)

theorem NumberChar.isSpace {c : Char} (h : NumberChar c) : isSpace c = false := by
  simp only [Json.isSpace, Bool.or_eq_false_iff, beq_eq_false_iff_ne]
  exact ⟨⟨⟨h.ne (by decide), h.ne (by decide)⟩, h.ne (by decide)⟩, h.ne (by decide)⟩

/-- What reading a text before `rest` comes to: the value that it is read as, or a fault, or a
number that ends within the text. -/
inductive Comes (rest : List Char) : Option Json → Except Fault (Json × List Char) → Prop
  | read {j : Json} : Comes rest (some j) (.ok (j, rest))
  | fault {f : Fault} : Comes rest none (.error f)
  | stuck {j : Json} {c : Char} {left : List Char} (h : NumberChar c) :
    Comes rest none (.ok (j, c :: left))

/-- Before anything that is no part of a number the text is read as this value, or not read. -/
def ReadsAs (depth : Nat) (cs : List Char) (o : Option Json) : Prop :=
  Starts cs ∧ ∀ ⦃fuel rest⦄, 2 * cs.length ≤ fuel → Apart rest →
    Comes rest o (readValue fuel depth (cs ++ rest))

/-- The text says itself where it ends: it is read as this value, or not read, before anything. -/
def Closes (depth : Nat) (cs : List Char) (o : Option Json) : Prop :=
  Starts cs ∧ ∀ ⦃fuel⦄ rest, 2 * cs.length ≤ fuel → Comes rest o (readValue fuel depth (cs ++ rest))

theorem Closes.readsAs (h : Closes depth cs o) : ReadsAs depth cs o :=
  ⟨h.1, fun _ rest hf _ => h.2 rest hf⟩

theorem Reads.readsAs {j : Json} (h : Reads depth j) : ReadsAs depth (chars j) (some j) :=
  ⟨h.1, fun _ _ hf hr => h.2 hf hr ▸ .read⟩

/-- What reading comes to where nothing follows the text. -/
theorem ReadsAs.alone (h : ReadsAs depth cs o) (hf : 2 * cs.length ≤ fuel) :
    Comes [] o (readValue fuel depth cs) := by
  have hread : Comes [] o (readValue fuel depth (cs ++ [])) := h.2 hf nofun
  rwa [List.append_nil] at hread

/-- A text is read as one value. -/
theorem ReadsAs.unique {o' : Option Json} {j : Json} (h : ReadsAs depth cs o)
    (k : ReadsAs depth cs o') (ho : o' = some j) : o = some j := by
  have hread := k.alone (Nat.le_refl _)
  have hsame := h.alone (Nat.le_refl _)
  subst ho
  generalize readValue (2 * cs.length) depth cs = r at hread hsame
  cases hread
  cases hsame
  rfl

/-- A reader of the parts of a value comes to the value that the parts make up. -/
theorem comes_of_parts {α : Type} {parts : Option α} {r : Except Fault (α × List Char)}
    (value : α → Json) (h : r.toOption = parts.map fun a => (a, rest)) :
    Comes rest (parts.map value) (r >>= fun a => pure (value a.1, a.2)) := by
  cases parts with
  | none =>
    cases r with
    | error f => exact .fault
    | ok a => cases h
  | some a =>
    cases r with
    | error f => cases h
    | ok b =>
      obtain rfl := Option.some.inj h
      exact .read

/-! ## Numbers -/

theorem readValue_signed {c : Char} (hc : c = '-' ∨ c.isDigit = true) (cs : List Char) :
    readValue (fuel + 1) depth (c :: cs) =
      (readSigned (c :: cs)).map fun r => (.number r.1, r.2) := by
  by_cases hm : c = '-'
  · subst hm
    show (readNumber true cs >>= fun r => pure (Json.number r.1, r.2)) =
      (readNumber true cs).map fun r => (Json.number r.1, r.2)
    cases readNumber true cs <;> rfl
  · have hdigit := hc.resolve_left hm
    rw [readSigned_of_ne hm]
    simp only [readValue, skipSpace_cons (isSpace_of_isDigit hdigit)]
    split
    any_goals
      rename_i heq
      obtain ⟨rfl, -⟩ := List.cons.inj heq
      exact absurd hdigit (by decide)
    · contradiction
    · rw [startsWithDigit, digit?_of_isDigit hdigit]
      simp only [Option.isSome_some, ↓reduceIte]
      cases readNumber false (c :: cs) <;> rfl

theorem NumberText.starts (h : NumberText cs) : Starts cs := by
  obtain ⟨c, tail, rfl, hc⟩ := h.head
  have hnumber : NumberChar c := h.chars c List.mem_cons_self
  exact ⟨c, tail, rfl, hnumber.isSpace, hnumber.ne (by decide)⟩

/-- The text of a number is read as the number that the whole of it writes. -/
theorem readsAs_number (h : NumberText cs) : ReadsAs depth cs ((numeral? cs).map .number) := by
  refine ⟨h.starts, fun fuel rest hf hr => ?_⟩
  have hextends := extends_readSigned hr h.ended h.ne_nil
  obtain ⟨c, tail, rfl, hc⟩ := h.head
  obtain _ | fuel := fuel
  · simp at hf
  rw [numeral?, List.cons_append, readValue_signed hc]
  rw [List.cons_append] at hextends
  generalize readSigned (c :: tail) = r at hextends ⊢
  generalize readSigned (c :: (tail ++ rest)) = r' at hextends ⊢
  cases hextends with
  | fault => exact .fault
  | @ok n left hs =>
    cases left with
    | nil => exact .read
    | cons d left => exact .stuck (h.chars d (hs.subset List.mem_cons_self))

/-! ## Items -/

/-- An item, and the others after it. -/
def readItemThen (fuel depth : Nat) (cs : List Char) : Except Fault (List Json × List Char) := do
  let (item, cs) ← readValue fuel depth cs
  let (items, cs) ← readItems fuel depth false cs
  return (item :: items, cs)

theorem readItems_first (hs : Starts cs) :
    readItems (fuel + 1) depth true cs = readItemThen fuel depth cs := by
  obtain ⟨c, tail, rfl, hspace, hne⟩ := hs
  simp only [readItems, skipSpace_cons hspace]
  split
  · contradiction
  · exact absurd (List.cons.inj ‹_›).1 hne
  · rfl

theorem readItems_next (hs : Starts cs) :
    readItems (fuel + 1) depth false (',' :: cs) = readItemThen fuel depth cs := by
  show (readItemComma (',' :: cs) >>= fun r => readItemThen fuel depth r.2) = _
  rw [readItemComma_cons hs]
  rfl

/-- A number that ends too early is followed by neither a comma nor a bracket. -/
theorem readItems_stuck (fuel depth : Nat) {c : Char} (h : NumberChar c) (left : List Char) :
    ∃ f, readItems fuel depth false (c :: left) = .error f := by
  cases fuel with
  | zero => exact ⟨_, rfl⟩
  | succ fuel =>
    have hcomma : ∃ f, readItemComma (c :: left) = .error f := by
      unfold readItemComma
      split
      · exact absurd (List.cons.inj ‹_›).1 (h.ne (by decide))
      · exact ⟨_, rfl⟩
    obtain ⟨f, hf⟩ := hcomma
    refine ⟨f, ?_⟩
    simp only [readItems, skipSpace_cons h.isSpace]
    split
    · contradiction
    · exact absurd (List.cons.inj ‹_›).1 (h.ne (by decide))
    · rw [hf]
      rfl

/-- An item that is read as no value ends the list, and any other is followed by the others. -/
theorem readItemThen_comes {tail : List Char} (h : ReadsAs depth cs o) (hf : 2 * cs.length ≤ fuel)
    (ht : Apart tail) :
    (readItemThen fuel depth (cs ++ tail)).toOption =
      o.bind fun x => (readItems fuel depth false tail).toOption.map fun r => (x :: r.1, r.2) := by
  have hread := h.2 hf ht
  unfold readItemThen
  generalize readValue fuel depth (cs ++ tail) = r at hread ⊢
  cases hread with
  | read =>
    show (readItems fuel depth false tail >>= fun r => pure (_ :: r.1, r.2)).toOption = _
    cases readItems fuel depth false tail <;> rfl
  | fault => rfl
  | @stuck _ c left hc =>
    obtain ⟨f, hstuck⟩ := readItems_stuck fuel depth hc left
    show (readItems fuel depth false (c :: left) >>= fun r => pure (_ :: r.1, r.2)).toOption = none
    rw [hstuck]
    rfl

/-- The items after the first are read one by one. -/
theorem readItems_parts {ps : List (List Char × Option Json)}
    (h : ∀ p ∈ ps, ReadsAs depth p.1 p.2)
    (hf : 2 * ((ps.flatMap fun p => ',' :: p.1).length + 1) ≤ fuel) :
    (readItems fuel depth false ((ps.flatMap fun p => ',' :: p.1) ++ ']' :: rest)).toOption =
      (ps.mapM Prod.snd).map fun items => (items, rest) := by
  induction ps generalizing fuel with
  | nil =>
    obtain _ | fuel := fuel
    · simp at hf
    · rfl
  | cons p ps ih =>
    have hp := h p List.mem_cons_self
    obtain _ | fuel := fuel
    · simp at hf
    simp only [List.flatMap_cons, List.cons_append, List.length_cons, List.length_append] at hf
    have hpos := hp.1.length_pos
    have hf' : 2 * ((ps.flatMap fun p => ',' :: p.1).length + 1) ≤ fuel := by omega
    have hrest := ih (fun q hq => h q (List.mem_cons_of_mem _ hq)) hf'
    rw [List.flatMap_cons, List.cons_append, List.cons_append, List.append_assoc,
      readItems_next (hp.1.append _), readItemThen_comes hp (by omega)
        (apart_flatMap ps (apart_cons rfl (by decide) (by decide) (by decide) _)), hrest,
      List.mapM_cons]
    cases p.2 with
    | none => rfl
    | some x => cases ps.mapM Prod.snd <;> rfl

/-- Parts with something between them are the first part, and each other part after it. -/
theorem intercalate_cons {α : Type} (x : α) (t : List α) (ts : List (List α)) :
    [x].intercalate (t :: ts) = t ++ ts.flatMap (x :: ·) := by
  induction ts generalizing t with
  | nil => rw [List.intercalate_singleton, List.flatMap_nil, List.append_nil]
  | cons u us ih =>
    rw [List.intercalate_cons_cons, ih, List.flatMap_cons, List.append_assoc]
    rfl

/-- Texts with commas between them, in brackets, are read as the list of what they are read as. -/
theorem closes_list {ps : List (List Char × Option Json)} (h : ∀ p ∈ ps, ReadsAs depth p.1 p.2) :
    Closes (depth + 1) ('[' :: ([','].intercalate (ps.map Prod.fst) ++ [']']))
      ((ps.mapM Prod.snd).map .list) := by
  refine ⟨⟨'[', _, rfl, rfl, by decide⟩, fun fuel rest hf => ?_⟩
  simp only [List.length_cons, List.length_append, List.length_nil] at hf
  obtain _ | _ | fuel := fuel
  · omega
  · omega
  rw [List.cons_append, List.append_assoc]
  refine comes_of_parts (r := readItems (fuel + 1) depth true _) Json.list ?_
  rw [List.cons_append, List.nil_append]
  cases ps with
  | nil => rfl
  | cons p ps =>
    have hp := h p List.mem_cons_self
    have hpos := hp.1.length_pos
    rw [List.map_cons, intercalate_cons, List.flatMap_map] at hf ⊢
    rw [List.length_append] at hf
    rw [List.append_assoc, readItems_first (hp.1.append _),
      readItemThen_comes hp (by omega)
        (apart_flatMap ps (apart_cons rfl (by decide) (by decide) (by decide) _)),
      readItems_parts (fun q hq => h q (List.mem_cons_of_mem _ hq)) (by omega), List.mapM_cons]
    cases p.2 with
    | none => rfl
    | some x => cases ps.mapM Prod.snd <;> rfl

/-! ## Fields -/

/-- The value of a field, and the fields after it. -/
def readFieldThen (fuel depth : Nat) (fields : Sorted Json) (key : String) (cs : List Char) :
    Except Fault (Sorted Json × List Char) := do
  let (value, cs) ← readValue fuel depth cs
  readFields fuel depth false (Sorted.insert key value fields) cs

/-- The text of a key and of what stands for its value. -/
def keyed (key : String) (cs : List Char) : List Char := stringText key ++ ':' :: cs

theorem keyed_append (key : String) (cs tail : List Char) :
    keyed key cs ++ tail = keyed key (cs ++ tail) := by
  rw [keyed, keyed, List.append_assoc]
  rfl

theorem length_keyed (key : String) (cs : List Char) :
    key.toList.length + 3 + cs.length ≤ (keyed key cs).length := by
  have hlen := length_le_chars key
  simp only [keyed, List.length_append, List.length_cons]
  omega

/-- A key is read up to the colon after it. -/
theorem readFields_key (depth : Nat) (first : Bool) {key : String} (fields : Sorted Json)
    (cs : List Char) (hf : key.toList.length ≤ fuel) :
    readFields (fuel + 1) depth first fields ((if first then [] else [',']) ++ keyed key cs) =
      readFieldThen fuel depth fields key cs := by
  have hkey : readString (fuel + 1) (key.toList.flatMap escaped ++ '"' :: ':' :: cs) =
      .ok (key.toList, ':' :: cs) := readString_chars key.toList (by omega)
  have htext : keyed key cs = '"' :: (key.toList.flatMap escaped ++ '"' :: ':' :: cs) := by
    simp [keyed, stringText]
  rw [htext]
  have hstep (r : Except Fault (List Char × List Char)) (hr : r = .ok (key.toList, ':' :: cs)) :
      (r >>= fun r => readColon r.2 >>= fun c => readValue fuel depth c.2 >>= fun v =>
        readFields fuel depth false (Sorted.insert (String.ofList r.1) v.1 fields) v.2) =
      readFieldThen fuel depth fields key cs := by
    rw [hr]
    show (readValue fuel depth cs >>= fun v =>
      readFields fuel depth false (Sorted.insert (String.ofList key.toList) v.1 fields) v.2) = _
    rw [String.ofList_toList]
    rfl
  cases first with
  | true => exact hstep _ hkey
  | false => exact hstep _ hkey

/-- A number that ends too early is followed by neither a comma nor a brace. -/
theorem readFields_stuck (fuel depth : Nat) (fields : Sorted Json) {c : Char} (h : NumberChar c)
    (left : List Char) :
    ∃ f, readFields fuel depth false fields (c :: left) = .error f := by
  cases fuel with
  | zero => exact ⟨_, rfl⟩
  | succ fuel =>
    have hcomma : ∃ f, readKeyQuote false (c :: left) = .error f := by
      unfold readKeyQuote
      split
      · contradiction
      · contradiction
      · exact absurd (List.cons.inj ‹_›).1 (h.ne (by decide))
      · exact ⟨_, rfl⟩
    obtain ⟨f, hf⟩ := hcomma
    refine ⟨f, ?_⟩
    simp only [readFields, skipSpace_cons h.isSpace]
    split
    · contradiction
    · exact absurd (List.cons.inj ‹_›).1 (h.ne (by decide))
    · rw [hf]
      rfl

theorem readFieldThen_comes {tail : List Char} {fields : Sorted Json} {key : String}
    (h : ReadsAs depth cs o) (hf : 2 * cs.length ≤ fuel) (ht : Apart tail) :
    (readFieldThen fuel depth fields key (cs ++ tail)).toOption =
      o.bind fun x =>
        (readFields fuel depth false (Sorted.insert key x fields) tail).toOption := by
  have hread := h.2 hf ht
  unfold readFieldThen
  generalize readValue fuel depth (cs ++ tail) = r at hread ⊢
  cases hread with
  | read => rfl
  | fault => rfl
  | @stuck j c left hc =>
    obtain ⟨f, hstuck⟩ := readFields_stuck fuel depth (Sorted.insert key j fields) hc left
    show (readFields fuel depth false (Sorted.insert key j fields) (c :: left)).toOption = none
    rw [hstuck]
    rfl

/-- The fields of some parts, if each is read. -/
def fieldsOf? (ps : List (String × List Char × Option Json)) : Option (List (String × Json)) :=
  ps.mapM fun p => p.2.2.map fun x => (p.1, x)

theorem fieldsOf?_cons (p : String × List Char × Option Json)
    (ps : List (String × List Char × Option Json)) :
    fieldsOf? (p :: ps) = p.2.2.bind fun x => (fieldsOf? ps).map fun fs => (p.1, x) :: fs := by
  rw [fieldsOf?, List.mapM_cons, ← fieldsOf?]
  cases p.2.2 with
  | none => rfl
  | some x => cases fieldsOf? ps <;> rfl

/-- The fields after the first are added one by one. -/
theorem readFields_parts {ps : List (String × List Char × Option Json)} {before : Sorted Json}
    (h : ∀ p ∈ ps, ReadsAs depth p.2.1 p.2.2)
    (hf : 2 * ((ps.flatMap fun p => ',' :: keyed p.1 p.2.1).length + 1) ≤ fuel) :
    (readFields fuel depth false before
        ((ps.flatMap fun p => ',' :: keyed p.1 p.2.1) ++ '\x7d' :: rest)).toOption =
      (fieldsOf? ps).map fun fs => (Sorted.merge before fs, rest) := by
  induction ps generalizing fuel before with
  | nil =>
    obtain _ | fuel := fuel
    · simp at hf
    · rfl
  | cons p ps ih =>
    have hp := h p List.mem_cons_self
    obtain _ | fuel := fuel
    · simp at hf
    have hlen := length_keyed p.1 p.2.1
    simp only [List.flatMap_cons, List.cons_append, List.length_cons, List.length_append] at hf
    rw [List.flatMap_cons, List.append_assoc, List.cons_append, keyed_append]
    have hkey : p.1.toList.length ≤ fuel := by omega
    refine (congrArg _ (readFields_key depth false before _ hkey)).trans ?_
    rw [readFieldThen_comes hp (by omega)
        (apart_flatMap ps (apart_cons rfl (by decide) (by decide) (by decide) _)), fieldsOf?_cons]
    cases p.2.2 with
    | none => rfl
    | some x =>
      show (readFields fuel depth false _ _).toOption = _
      rw [ih (fun q hq => h q (List.mem_cons_of_mem _ hq)) (by omega)]
      cases fieldsOf? ps <;> rfl

/-- Keys and texts with commas between them, in braces, are read as the object of what the texts are
read as; a later key replaces an earlier one. -/
theorem closes_object {ps : List (String × List Char × Option Json)}
    (h : ∀ p ∈ ps, ReadsAs depth p.2.1 p.2.2) :
    Closes (depth + 1)
      ('\x7b' :: ([','].intercalate (ps.map fun p => keyed p.1 p.2.1) ++ ['\x7d']))
      ((fieldsOf? ps).map fun fs => .object (Sorted.ofList fs)) := by
  refine ⟨⟨'\x7b', _, rfl, rfl, by decide⟩, fun fuel rest hf => ?_⟩
  simp only [List.length_cons, List.length_append, List.length_nil] at hf
  obtain _ | _ | fuel := fuel
  · omega
  · omega
  have hfields : (readFields (fuel + 1) depth true []
      ([','].intercalate (ps.map fun p => keyed p.1 p.2.1) ++ '\x7d' :: rest)).toOption =
        ((fieldsOf? ps).map Sorted.ofList).map fun fs => (fs, rest) := by
    cases ps with
    | nil => rfl
    | cons p ps =>
      have hp := h p List.mem_cons_self
      have hlen := length_keyed p.1 p.2.1
      rw [List.map_cons, intercalate_cons, List.flatMap_map] at hf ⊢
      rw [List.length_append] at hf
      have hkey : p.1.toList.length ≤ fuel := by omega
      rw [List.append_assoc, keyed_append]
      refine (congrArg _ (readFields_key depth true [] _ hkey)).trans ?_
      rw [readFieldThen_comes hp (by omega)
        (apart_flatMap ps (apart_cons rfl (by decide) (by decide) (by decide) _)), fieldsOf?_cons]
      cases p.2.2 with
      | none => rfl
      | some x =>
        show (readFields fuel depth false _ _).toOption = _
        rw [readFields_parts (fun q hq => h q (List.mem_cons_of_mem _ hq)) (by omega)]
        cases fieldsOf? ps <;> rfl
  have hcomes := comes_of_parts Json.object hfields
  rw [Option.map_map] at hcomes
  rw [List.cons_append, List.append_assoc]
  exact hcomes

/-! ## Values -/

mutual

/-- What the compact text of a value is read as, at most `depth` lists and objects deep. -/
def reread : Nat → Json → Option Json
  | _, .null => some .null
  | _, .bool b => some (.bool b)
  | _, .number n => (numeral? n.text).map .number
  | _, .string s => some (.string s)
  | 0, .list _ => none
  | depth + 1, .list items => (rereadItems depth items).map .list
  | 0, .object _ => none
  | depth + 1, .object fields =>
    (rereadFields depth fields).map fun fs => .object (Sorted.ofList fs)

/-- What the texts of items are read as. -/
def rereadItems : Nat → List Json → Option (List Json)
  | _, [] => some []
  | depth, j :: items => do
    let j ← reread depth j
    let items ← rereadItems depth items
    return j :: items

/-- What the texts of fields are read as. -/
def rereadFields : Nat → List (String × Json) → Option (List (String × Json))
  | _, [] => some []
  | depth, (k, j) :: fields => do
    let j ← reread depth j
    let fields ← rereadFields depth fields
    return (k, j) :: fields

end

/-- The text of an item, and what it is read as. -/
def itemPart (depth : Nat) (j : Json) : List Char × Option Json := (chars j, reread depth j)

/-- The text of a field, and what it is read as. -/
def fieldPart (depth : Nat) (f : String × Json) : String × List Char × Option Json :=
  (f.1, chars f.2, reread depth f.2)

theorem mapM_itemPart (items : List Json) :
    (items.map (itemPart depth)).mapM Prod.snd = rereadItems depth items := by
  induction items with
  | nil => rfl
  | cons j items ih =>
    rw [List.map_cons, List.mapM_cons, ih]
    rfl

theorem fieldsOf?_fieldPart (fields : List (String × Json)) :
    fieldsOf? (fields.map (fieldPart depth)) = rereadFields depth fields := by
  induction fields with
  | nil => rfl
  | cons f fields ih =>
    rw [List.map_cons, fieldsOf?_cons, ih, rereadFields, fieldPart]
    cases reread depth f.2 with
    | none => rfl
    | some j => cases rereadFields depth fields <;> rfl

theorem itemChars_eq (items : List Json) :
    itemChars items = [','].intercalate (items.map chars) := by
  cases items with
  | nil => rfl
  | cons j items => rw [itemChars_cons, List.map_cons, intercalate_cons, List.flatMap_map]

theorem fieldChars_eq (fields : List (String × Json)) :
    fieldChars fields = [','].intercalate (fields.map fun f => keyed f.1 (chars f.2)) := by
  cases fields with
  | nil => rfl
  | cons f fields =>
    rw [fieldChars_cons, List.map_cons, intercalate_cons, List.flatMap_map]
    rfl

/-- No list and no object is read where none may stand. -/
theorem closes_tooDeep {c : Char} (hc : c = '[' ∨ c = '\x7b') (cs : List Char) :
    Closes 0 (c :: cs) none := by
  rcases hc with rfl | rfl
  all_goals
    refine ⟨⟨_, cs, rfl, rfl, by decide⟩, fun fuel rest hf => ?_⟩
    obtain _ | fuel := fuel
    · simp at hf
    · exact .fault

theorem closes_null : Closes depth (chars .null) (some .null) := by
  refine ⟨⟨_, _, rfl, rfl, by decide⟩, fun fuel rest hf => ?_⟩
  obtain _ | fuel := fuel
  · simp [chars] at hf
  · exact .read

theorem closes_bool (b : Bool) : Closes depth (chars (.bool b)) (some (.bool b)) := by
  refine ⟨by cases b <;> exact ⟨_, _, rfl, rfl, by decide⟩, fun fuel rest hf => ?_⟩
  obtain _ | fuel := fuel
  · cases b <;> simp [chars] at hf
  · cases b <;> exact .read

theorem closes_string (s : String) : Closes depth (chars (.string s)) (some (.string s)) := by
  have hlen := length_le_chars s
  refine ⟨⟨_, _, rfl, rfl, by decide⟩, fun fuel rest hf => ?_⟩
  rw [chars] at hf ⊢
  obtain _ | fuel := fuel
  · omega
  have hread : readValue (fuel + 1) depth ('"' :: (s.toList.flatMap escaped ++ '"' :: rest)) =
      .ok (.string (String.ofList s.toList), rest) :=
    readValue_string (readString_chars s.toList (by omega))
  have htext : stringText s ++ rest = '"' :: (s.toList.flatMap escaped ++ '"' :: rest) := by
    simp [stringText]
  rw [htext, hread, String.ofList_toList]
  exact .read

mutual

/-- The text of anything but a number is read as `reread` says, whatever follows. -/
theorem closes_reread : (j : Json) → j.kind ≠ .number → (depth : Nat) →
    Closes depth (chars j) (reread depth j)
  | .null, _, _ => closes_null
  | .bool b, _, _ => closes_bool b
  | .number _, h, _ => absurd rfl h
  | .string s, _, _ => closes_string s
  | .list items, _, 0 => closes_tooDeep (.inl rfl) _
  | .list items, _, depth + 1 => by
    have hparts : ∀ p ∈ items.map (itemPart depth), ReadsAs depth p.1 p.2 := by
      intro p hp
      obtain ⟨j, hj, rfl⟩ := List.mem_map.mp hp
      exact readsAs_rereadItems items depth j hj
    have hlist := closes_list hparts
    rw [List.map_map, mapM_itemPart] at hlist
    rw [chars, itemChars_eq, reread]
    exact hlist
  | .object fields, _, 0 => closes_tooDeep (.inr rfl) _
  | .object fields, _, depth + 1 => by
    have hparts : ∀ p ∈ fields.map (fieldPart depth), ReadsAs depth p.2.1 p.2.2 := by
      intro p hp
      obtain ⟨f, hf, rfl⟩ := List.mem_map.mp hp
      exact readsAs_rereadFields fields depth f hf
    have hobject := closes_object hparts
    rw [List.map_map, fieldsOf?_fieldPart] at hobject
    rw [chars, fieldChars_eq, reread]
    exact hobject

/-- The text of a value is read as `reread` says. -/
theorem readsAs_reread : (j : Json) → (depth : Nat) → ReadsAs depth (chars j) (reread depth j)
  | .number n, _ => readsAs_number (numberText_text n)
  | .null, depth => (closes_reread .null nofun depth).readsAs
  | .bool b, depth => (closes_reread (.bool b) nofun depth).readsAs
  | .string s, depth => (closes_reread (.string s) nofun depth).readsAs
  | .list items, depth => (closes_reread (.list items) nofun depth).readsAs
  | .object fields, depth => (closes_reread (.object fields) nofun depth).readsAs

theorem readsAs_rereadItems : (items : List Json) → (depth : Nat) →
    ∀ j ∈ items, ReadsAs depth (chars j) (reread depth j)
  | [], _ => nofun
  | j :: items, depth => fun _ hj' => (List.mem_cons.mp hj').elim
    (fun e => e ▸ readsAs_reread j depth) (readsAs_rereadItems items depth _)

theorem readsAs_rereadFields : (fields : List (String × Json)) → (depth : Nat) →
    ∀ f ∈ fields, ReadsAs depth (chars f.2) (reread depth f.2)
  | [], _ => nofun
  | (_, j) :: fields, depth => fun _ hf' => (List.mem_cons.mp hf').elim
    (fun e => e ▸ readsAs_reread j depth) (readsAs_rereadFields fields depth _)

end

/-- An exact value is read as itself. -/
theorem Exact.reread_eq {j : Json} (h : Exact ok depth j) : reread depth j = some j :=
  (readsAs_reread j depth).unique h.reads.readsAs rfl

/-! ## Whole texts -/

theorem skipSpace_stuck {c : Char} (h : NumberChar c) (left : List Char) :
    skipSpace (c :: left) = c :: left := skipSpace_cons h.isSpace left

/-- A whole text is read as the value that it is read as anywhere. -/
theorem ReadsAs.readAll (h : ReadsAs maxDepth cs o) : (readAll cs).toOption = o := by
  have hlen : 2 * cs.length ≤ 2 * cs.length + 1 := Nat.le_succ _
  have hread := h.alone hlen
  unfold Json.readAll
  generalize readValue (2 * cs.length + 1) maxDepth cs = r at hread ⊢
  cases hread with
  | read => rfl
  | fault => rfl
  | stuck hc =>
    simp only [bind, Except.bind, skipSpace_stuck hc]
    rfl

/-- What is read from a value's text. -/
theorem read_render_toOption (j : Json) : (read j.render).toOption = reread maxDepth j := by
  have hall := (readsAs_reread j maxDepth).readAll
  rw [read, render, String.toList_ofList, ← hall]
  cases readAll (chars j) <;> rfl

end Rill.Json
