import Mathlib.Data.List.Chain
import Rill.Proofs.Json.Reread
import Rill.Record

/-!
# Symbols that spell a value

What is written into a record are symbols: punctuation, numbers, and other values, keys among them.
The grammar of JSON says which symbols are a value (`Spells`), and their text is read as a value
exactly if they spell it (`readAll_chars`): what is spelt is read (`Spells.readsAs`), and by
induction on the fuel what was read was spelt by the first symbols (`allSpelt`).

The texts stand one after the other with nothing in between, so numbers that stand side by side are
the text of one number (`join`). Nothing else runs together.
-/

namespace Rill.Record

open Json (Apart Comes ReadsAs Closes NumberText NumberChar Starts numeral? reread readValue
  readItems readFields readItemThen readFieldThen keyed)

/-! ## Symbols -/

/-- What an operand of a record is to the grammar. -/
inductive Symbol where
  /-- A word of punctuation. -/
  | mark (w : String)
  /-- The text of one number, or of several that stand side by side. -/
  | numeral (cs : List Char)
  /-- Any other value, or a key. -/
  | datum (j : Json)

namespace Symbol

/-- The text of a symbol. -/
def chars : Symbol → List Char
  | .mark w => w.toList
  | .numeral cs => cs
  | .datum j => j.chars

/-- Whether a symbol is punctuation. -/
def isMark : Symbol → Bool
  | .mark _ => true
  | _ => false

/-- Whether a symbol is a number. -/
def isNumeral : Symbol → Bool
  | .numeral _ => true
  | _ => false

/-- A value as a symbol. -/
def ofJson : Json → Symbol
  | .number n => .numeral n.text
  | j => .datum j

/-- The field of a key and the symbols of its value. -/
def field (key : String) (ss : List Symbol) : List Symbol :=
  .datum (.string key) :: .mark ":" :: ss

/-- The symbols between braces. -/
def braced (ss : List Symbol) : List Symbol := .mark "\x7b" :: (ss ++ [.mark "\x7d"])

/-- The symbols with each run of numbers as one. -/
def join : List Symbol → List Symbol
  | [] => []
  | .numeral a :: rest =>
    match join rest with
    | .numeral b :: rest => .numeral (a ++ b) :: rest
    | rest => .numeral a :: rest
  | s :: rest => s :: join rest

/-- What a symbol of a record is made of. -/
inductive Ok : Symbol → Prop
  | mark {w : String} (h : w ∈ punctuation) : Ok (.mark w)
  | numeral {cs : List Char} (h : NumberText cs) : Ok (.numeral cs)
  | datum {j : Json} (h : j.kind ≠ .number) : Ok (.datum j)

end Symbol

open Rill.Record.Symbol (braced join field)

/-- The text of some symbols. -/
def chars (ss : List Symbol) : List Char := ss.flatMap Symbol.chars

/-- The symbols are the value, at most `depth` lists and objects deep. -/
inductive Spells : Nat → List Symbol → Json → Prop
  | datum {depth : Nat} {j j' : Json} (h : reread depth j = some j') : Spells depth [.datum j] j'
  | numeral {depth : Nat} {cs : List Char} {n : Numeral} (h : numeral? cs = some n) :
    Spells depth [.numeral cs] (.number n)
  | negative {depth : Nat} {cs : List Char} {n : Numeral} (h : numeral? ('-' :: cs) = some n) :
    Spells depth [.mark "-", .numeral cs] (.number n)
  | list {depth : Nat} {parts : List (List Symbol × Json)} (h : ∀ p ∈ parts, Spells depth p.1 p.2) :
    Spells (depth + 1)
      (.mark "[" :: ([.mark ","].intercalate (parts.map Prod.fst) ++ [.mark "]"]))
      (.list (parts.map Prod.snd))
  | object {depth : Nat} {parts : List (String × List Symbol × Json)}
    (h : ∀ p ∈ parts, Spells depth p.2.1 p.2.2) :
    Spells (depth + 1) (braced ([.mark ","].intercalate (parts.map fun p => field p.1 p.2.1)))
      (.object (Sorted.ofList (parts.map fun p => (p.1, p.2.2))))

variable {depth fuel : Nat} {ss : List Symbol} {s : Symbol} {j : Json}

@[simp] theorem chars_nil : chars [] = [] := rfl

@[simp] theorem chars_cons (s : Symbol) (ss : List Symbol) :
    chars (s :: ss) = s.chars ++ chars ss :=
  rfl

@[simp] theorem chars_append (ss tt : List Symbol) : chars (ss ++ tt) = chars ss ++ chars tt :=
  List.flatMap_append

theorem chars_intercalate (tt : List (List Symbol)) :
    chars ([.mark ","].intercalate tt) = [','].intercalate (tt.map chars) := by
  cases tt with
  | nil => rfl
  | cons t tt =>
    rw [List.map_cons, Json.intercalate_cons, Json.intercalate_cons, chars_append]
    congr 1
    rw [List.flatMap_map, chars, List.flatMap_assoc]
    rfl

theorem chars_field (key : String) (ss : List Symbol) :
    chars (field key ss) = keyed key (chars ss) := by
  simp only [field, chars_cons, Symbol.chars, keyed, Json.chars]
  rfl

theorem Symbol.chars_ofJson (j : Json) : (Symbol.ofJson j).chars = j.chars := by
  cases j <;> rfl

theorem Symbol.ok_ofJson (j : Json) : (Symbol.ofJson j).Ok := by
  cases j with
  | number n => exact .numeral (Json.numberText_text n)
  | null | bool _ | string _ | list _ | object _ =>
    refine .datum fun h => ?_
    cases h

/-! ## What is spelt is read -/

theorem mapM_known {α : Type} (text : α → List Char) (value : α → Json) (parts : List α) :
    (parts.map fun p => (text p, some (value p))).mapM Prod.snd = some (parts.map value) := by
  induction parts with
  | nil => rfl
  | cons p parts ih =>
    rw [List.map_cons, List.mapM_cons, ih]
    rfl

theorem fieldsOf?_known {α : Type} (key : α → String) (text : α → List Char) (value : α → Json)
    (parts : List α) :
    Json.fieldsOf? (parts.map fun p => (key p, text p, some (value p))) =
      some (parts.map fun p => (key p, value p)) := by
  induction parts with
  | nil => rfl
  | cons p parts ih =>
    rw [List.map_cons, Json.fieldsOf?_cons, ih]
    rfl

/-- A part of what is between the brackets consists of symbols of the whole. -/
theorem mem_intercalate {α : Type} {x s : α} {t : List α} {tt : List (List α)} (ht : t ∈ tt)
    (hs : s ∈ t) : s ∈ [x].intercalate tt := by
  cases tt with
  | nil => cases ht
  | cons u tt =>
    rw [Json.intercalate_cons]
    rcases List.mem_cons.mp ht with rfl | ht
    · exact List.mem_append_left _ hs
    · exact List.mem_append_right _ (List.mem_flatMap.mpr ⟨t, ht, List.mem_cons_of_mem x hs⟩)

/-- Symbols that spell a value have a text that is read as that value. -/
theorem Spells.readsAs (h : Spells depth ss j) (hok : ∀ s ∈ ss, s.Ok) :
    ReadsAs depth (chars ss) (some j) := by
  induction h with
  | @datum depth j j' h =>
    rw [← h, chars_cons, chars_nil, List.append_nil]
    exact Json.readsAs_reread j depth
  | @numeral depth cs n h =>
    cases hok _ List.mem_cons_self with
    | numeral hcs =>
      have hread : ReadsAs depth cs _ := Json.readsAs_number hcs
      rw [h] at hread
      rwa [chars_cons, chars_nil, List.append_nil]
  | @negative depth cs n h =>
    cases hok (.numeral cs) (by simp) with
    | numeral hcs =>
      have hread : ReadsAs depth ('-' :: cs) _ := Json.readsAs_number hcs.minus
      rw [h] at hread
      rw [chars_cons, chars_cons, chars_nil, List.append_nil]
      exact hread
  | @list depth parts _ ih =>
    have hparts : ∀ p ∈ parts.map fun p => (chars p.1, some p.2), ReadsAs depth p.1 p.2 := by
      intro p hp
      obtain ⟨q, hq, rfl⟩ := List.mem_map.mp hp
      refine ih q hq fun s hs => hok s (List.mem_cons_of_mem _ (List.mem_append_left _ ?_))
      exact mem_intercalate (List.mem_map_of_mem hq) hs
    have hlist := (Json.closes_list hparts).readsAs
    rw [mapM_known, List.map_map] at hlist
    rw [chars_cons, chars_append, chars_intercalate, List.map_map]
    exact hlist
  | @object depth parts _ ih =>
    have hparts : ∀ p ∈ parts.map fun p => (p.1, chars p.2.1, some p.2.2),
        ReadsAs depth p.2.1 p.2.2 := by
      intro p hp
      obtain ⟨q, hq, rfl⟩ := List.mem_map.mp hp
      refine ih q hq fun s hs => hok s (List.mem_cons_of_mem _ (List.mem_append_left _ ?_))
      exact mem_intercalate (List.mem_map_of_mem hq)
        (List.mem_cons_of_mem _ (List.mem_cons_of_mem _ hs))
    have hobject := (Json.closes_object hparts).readsAs
    have hfields : (parts.map fun p => field p.1 p.2.1).map chars =
        (parts.map fun p => (p.1, chars p.2.1, some p.2.2)).map fun p => keyed p.1 p.2.1 := by
      rw [List.map_map, List.map_map]
      exact List.map_congr_left fun p _ => chars_field p.1 p.2.1
    rw [fieldsOf?_known] at hobject
    rw [braced, chars_cons, chars_append, chars_intercalate, hfields]
    exact hobject

theorem Spells.length_pos (h : Spells depth ss j) (hok : ∀ s ∈ ss, s.Ok) : 0 < (chars ss).length :=
  (h.readsAs hok).1.length_pos

/-! ## First characters -/

/-- No two numbers stand side by side. -/
def Joined (ss : List Symbol) : Prop :=
  ss.IsChain fun a b => ¬ (a.isNumeral = true ∧ b.isNumeral = true)

/-- The symbols are those of a record, and no two numbers stand side by side. -/
structure Separate (ss : List Symbol) : Prop where
  ok : ∀ s ∈ ss, s.Ok
  joined : Joined ss

theorem Separate.suffix {tt : List Symbol} (h : Separate ss) (hs : tt <:+ ss) : Separate tt :=
  ⟨fun s hm => h.ok s (hs.subset hm), h.joined.suffix hs⟩

theorem Separate.tail (h : Separate (s :: ss)) : Separate ss := h.suffix (List.suffix_cons s ss)

/-- The text of a value that is no number tells its kind by its first character. -/
theorem head_datum (h : j.kind ≠ .number) :
    ∃ c tail, j.chars = c :: tail ∧ c ∈ ['n', 't', 'f', '"', '[', '\x7b'] := by
  cases j with
  | null => exact ⟨_, _, rfl, by decide⟩
  | bool b => cases b <;> exact ⟨_, _, rfl, by decide⟩
  | number n => exact absurd rfl h
  | string s => exact ⟨_, _, rfl, by decide⟩
  | list items => exact ⟨_, _, by rw [Json.chars], by decide⟩
  | object fields => exact ⟨_, _, by rw [Json.chars], by decide⟩

/-- A word of punctuation is one character. -/
theorem mark_head {w : String} (h : w ∈ punctuation) :
    ∃ c, w.toList = [c] ∧ c ∈ [':', ',', '[', ']', '\x7b', '\x7d', '-'] := by
  have hmarks : ∀ w ∈ punctuation, ∃ c ∈ [':', ',', '[', ']', '\x7b', '\x7d', '-'],
      w.toList = [c] := by simp [punctuation]
  obtain ⟨c, hc, hw⟩ := hmarks w h
  exact ⟨c, hw, hc⟩

/-- What symbols begin with: a mark is one character, and no other symbol begins with a mark that
closes or separates. -/
theorem Symbol.Ok.head (h : s.Ok) :
    (∃ c, s = .mark (String.singleton c) ∧ s.chars = [c] ∧
      c ∈ [':', ',', '[', ']', '\x7b', '\x7d', '-']) ∨
    (s.isMark = false ∧ ∃ c tail, s.chars = c :: tail ∧ Json.isSpace c = false ∧
      c ∉ [':', ',', ']', '\x7d']) := by
  cases h with
  | @mark w h =>
    left
    obtain ⟨c, hw, hc⟩ := mark_head h
    obtain rfl : w = String.singleton c :=
      String.toList_inj.mp (by rw [hw, String.toList_singleton])
    exact ⟨c, rfl, hw, hc⟩
  | numeral h =>
    right
    obtain ⟨c, tail, rfl, -⟩ := h.head
    have hc : NumberChar c := h.chars c List.mem_cons_self
    refine ⟨rfl, c, tail, rfl, hc.isSpace, ?_⟩
    simp only [List.mem_cons, List.not_mem_nil, or_false, not_or]
    exact ⟨hc.ne (by decide), hc.ne (by decide), hc.ne (by decide), hc.ne (by decide)⟩
  | @datum j h =>
    right
    obtain ⟨c, tail, hj, hc⟩ := head_datum h
    have hall : ∀ c ∈ ['n', 't', 'f', '"', '[', '\x7b'],
        Json.isSpace c = false ∧ c ∉ [':', ',', ']', '\x7d'] := by simp [Json.isSpace]
    exact ⟨rfl, c, tail, hj, hall c hc⟩

theorem skipSpace_chars (h : ∀ s ∈ ss, s.Ok) : Json.skipSpace (chars ss) = chars ss := by
  cases ss with
  | nil => rfl
  | cons s ss =>
    rcases (h s List.mem_cons_self).head with ⟨c, -, hs, hc⟩ | ⟨-, c, tail, hs, hspace, -⟩
    · have hall : ∀ c ∈ [':', ',', '[', ']', '\x7b', '\x7d', '-'], Json.isSpace c = false := by
        simp [Json.isSpace]
      rw [chars_cons, hs]
      exact Json.skipSpace_cons (hall c hc) _
    · rw [chars_cons, hs]
      exact Json.skipSpace_cons hspace _

/-- Only a mark begins with the character of a mark that closes or separates. -/
theorem mark_of_chars {c : Char} {rest : List Char} (h : ∀ s ∈ ss, s.Ok)
    (hc : c ∈ [':', ',', ']', '\x7d']) (heq : chars ss = c :: rest) :
    ∃ uu, ss = .mark (String.singleton c) :: uu ∧ rest = chars uu := by
  cases ss with
  | nil => cases heq
  | cons s ss =>
    rw [chars_cons] at heq
    rcases (h s List.mem_cons_self).head with ⟨d, rfl, hs, -⟩ | ⟨-, d, tail, hs, -, hd⟩
    · rw [hs] at heq
      obtain ⟨rfl, rfl⟩ := List.cons.inj heq
      exact ⟨ss, rfl, rfl⟩
    · rw [hs] at heq
      exact absurd ((List.cons.inj heq).1 ▸ hc) hd

/-- Only a text begins with a quote. -/
theorem string_of_chars {rest : List Char} (h : ∀ s ∈ ss, s.Ok) (heq : chars ss = '"' :: rest) :
    ∃ k uu, ss = .datum (.string k) :: uu ∧
      rest = k.toList.flatMap Json.escaped ++ '"' :: chars uu := by
  cases ss with
  | nil => cases heq
  | cons s ss =>
    rw [chars_cons] at heq
    cases h s List.mem_cons_self with
    | @mark w hw =>
      obtain ⟨c, hw, hc⟩ := mark_head hw
      have hquote : ∀ c ∈ [':', ',', '[', ']', '\x7b', '\x7d', '-'], c ≠ '"' := by simp
      rw [Symbol.chars, hw] at heq
      exact absurd (List.cons.inj heq).1 (hquote c hc)
    | numeral hcs =>
      obtain ⟨c, tail, rfl, -⟩ := hcs.head
      exact absurd (List.cons.inj heq).1 ((hcs.chars c List.mem_cons_self).ne (by decide))
    | @datum j hj =>
      cases j with
      | string k =>
        refine ⟨k, ss, rfl, ?_⟩
        rw [Symbol.chars, Json.chars, Json.stringText, List.cons_append, List.append_assoc] at heq
        exact (List.cons.inj heq).2.symm
      | bool b => cases b <;> cases heq
      | number n => exact absurd rfl hj
      | null => cases heq
      | list items =>
        rw [Symbol.chars, Json.chars] at heq
        cases heq
      | object fields =>
        rw [Symbol.chars, Json.chars] at heq
        cases heq

/-- A number ends where the symbol after it begins, unless that is a number. -/
theorem apart_chars (h : ∀ s ∈ ss, s.Ok) (hn : ∀ s ∈ ss.head?, s.isNumeral = false) :
    Apart (chars ss) := by
  cases ss with
  | nil => nofun
  | cons s ss =>
    rw [chars_cons]
    cases h s List.mem_cons_self with
    | @mark w hw =>
      obtain ⟨c, hw, hc⟩ := mark_head hw
      have hall : ∀ c ∈ [':', ',', '[', ']', '\x7b', '\x7d', '-'],
          Json.digit? c = none ∧ c ≠ '.' ∧ c ≠ 'e' ∧ c ≠ 'E' := by simp [Json.digit?]
      obtain ⟨hd, hp, he, hE⟩ := hall c hc
      rw [Symbol.chars, hw]
      exact Json.apart_cons hd hp he hE _
    | numeral hcs => exact nomatch hn _ rfl
    | @datum j hj =>
      obtain ⟨c, tail, hj, hc⟩ := head_datum hj
      have hall : ∀ c ∈ ['n', 't', 'f', '"', '[', '\x7b'],
          Json.digit? c = none ∧ c ≠ '.' ∧ c ≠ 'e' ∧ c ≠ 'E' := by simp [Json.digit?]
      obtain ⟨hd, hp, he, hE⟩ := hall c hc
      rw [Symbol.chars, hj]
      exact Json.apart_cons hd hp he hE _

/-! ## What is read was spelt -/

/-- The text begins with the character of a number: what was read before it is a number that ends
too early, or stands before another. -/
def Stuck (cs : List Char) : Prop := ∃ c tail, cs = c :: tail ∧ NumberChar c

/-- Parts with commas between them, or with a comma before each. -/
def separated (first : Bool) (tt : List (List Symbol)) : List Symbol :=
  if first then [.mark ","].intercalate tt else tt.flatMap (.mark "," :: ·)

theorem separated_cons (first : Bool) (t : List Symbol) (tt : List (List Symbol)) :
    separated first (t :: tt) =
      (if first then [] else [.mark ","]) ++ (t ++ separated false tt) := by
  cases first with
  | true => exact Json.intercalate_cons _ t tt
  | false => rfl

/-- A value that was read from the text of symbols was spelt by the first of them. -/
def ValuesSpelt (fuel : Nat) : Prop :=
  ∀ ⦃depth ss j out⦄, Separate ss → 2 * (chars ss).length < fuel →
    readValue fuel depth (chars ss) = .ok (j, out) →
    Stuck out ∨ ∃ tt uu, ss = tt ++ uu ∧ Spells depth tt j ∧ out = chars uu

/-- So were the items of a list. -/
def ItemsSpelt (fuel : Nat) : Prop :=
  ∀ ⦃depth first ss items out⦄, Separate ss → 2 * (chars ss).length + 1 < fuel →
    readItems fuel depth first (chars ss) = .ok (items, out) →
    ∃ (parts : List (List Symbol × Json)) (uu : List Symbol),
      ss = separated first (parts.map Prod.fst) ++ .mark "]" :: uu ∧
        (∀ p ∈ parts, Spells depth p.1 p.2) ∧ items = parts.map Prod.snd ∧ out = chars uu

/-- So were the fields of an object. -/
def FieldsSpelt (fuel : Nat) : Prop :=
  ∀ ⦃depth first before ss fields out⦄, Separate ss → 2 * (chars ss).length + 1 < fuel →
    readFields fuel depth first before (chars ss) = .ok (fields, out) →
    ∃ (parts : List (String × List Symbol × Json)) (uu : List Symbol),
      ss = separated first (parts.map fun p => field p.1 p.2.1) ++ .mark "\x7d" :: uu ∧
        (∀ p ∈ parts, Spells depth p.2.1 p.2.2) ∧
        fields = Sorted.merge before (parts.map fun p => (p.1, p.2.2)) ∧ out = chars uu

theorem bind_eq_ok {α β ε : Type} {r : Except ε α} {f : α → Except ε β} {b : β}
    (h : (r >>= f) = .ok b) : ∃ a, r = .ok a ∧ f a = .ok b := by
  cases r with
  | error e => cases h
  | ok a => exact ⟨a, rfl, h⟩

/-- An item that was read, and what was read after it. -/
theorem readItemThen_inv {cs out : List Char} {items : List Json}
    (h : readItemThen fuel depth cs = .ok (items, out)) :
    ∃ x xs cs', readValue fuel depth cs = .ok (x, cs') ∧
      readItems fuel depth false cs' = .ok (xs, out) ∧ items = x :: xs := by
  obtain ⟨⟨x, cs'⟩, hx, h⟩ := bind_eq_ok h
  obtain ⟨⟨xs, out'⟩, hxs, h⟩ := bind_eq_ok h
  cases h
  exact ⟨x, xs, cs', hx, hxs, rfl⟩

/-- Reading items ends at a bracket, or goes on with an item. -/
theorem readItems_inv {first : Bool} {cs out : List Char} {items : List Json}
    (h : readItems (fuel + 1) depth first cs = .ok (items, out)) :
    (Json.skipSpace cs = ']' :: out ∧ items = []) ∨
    ∃ cs', (if first then .ok ((), Json.skipSpace cs) else Json.readItemComma (Json.skipSpace cs)) =
      .ok ((), cs') ∧ readItemThen fuel depth cs' = .ok (items, out) := by
  unfold Json.readItems at h
  split at h
  · cases h
  · rename_i heq
    cases h
    exact .inl ⟨heq, rfl⟩
  · cases first with
    | true => exact .inr ⟨_, rfl, h⟩
    | false =>
      obtain ⟨⟨⟨⟩, cs'⟩, hcomma, h⟩ := bind_eq_ok h
      exact .inr ⟨cs', hcomma, h⟩

theorem readItemComma_inv {cs cs' : List Char} (h : Json.readItemComma cs = .ok ((), cs')) :
    ∃ rest, cs = ',' :: rest ∧ cs' = Json.skipSpace rest := by
  unfold Json.readItemComma at h
  split at h
  · split at h
    · cases h
    · cases h
    · cases h
      exact ⟨_, rfl, rfl⟩
  · cases h

/-- A field that was read, and what was read after it. -/
theorem readFieldThen_inv {cs out : List Char} {before fields : Sorted Json} {key : String}
    (h : readFieldThen fuel depth before key cs = .ok (fields, out)) :
    ∃ x cs', readValue fuel depth cs = .ok (x, cs') ∧
      readFields fuel depth false (Sorted.insert key x before) cs' = .ok (fields, out) := by
  obtain ⟨⟨x, cs'⟩, hx, h⟩ := bind_eq_ok h
  exact ⟨x, cs', hx, h⟩

/-- Reading fields ends at a brace, or goes on with a key, a colon and a value. -/
theorem readFields_inv {first : Bool} {cs out : List Char} {before fields : Sorted Json}
    (h : readFields (fuel + 1) depth first before cs = .ok (fields, out)) :
    (Json.skipSpace cs = '\x7d' :: out ∧ fields = before) ∨
    ∃ cs₁ key cs₂ cs₃, Json.readKeyQuote first (Json.skipSpace cs) = .ok ((), cs₁) ∧
      Json.readString (fuel + 1) cs₁ = .ok (key, cs₂) ∧ Json.readColon cs₂ = .ok ((), cs₃) ∧
      readFieldThen fuel depth before (String.ofList key) cs₃ = .ok (fields, out) := by
  unfold Json.readFields at h
  split at h
  · cases h
  · rename_i heq
    cases h
    exact .inl ⟨heq, rfl⟩
  · obtain ⟨⟨⟨⟩, cs₁⟩, hquote, h⟩ := bind_eq_ok h
    obtain ⟨⟨key, cs₂⟩, hkey, h⟩ := bind_eq_ok h
    obtain ⟨⟨⟨⟩, cs₃⟩, hcolon, h⟩ := bind_eq_ok h
    exact .inr ⟨cs₁, key, cs₂, cs₃, hquote, hkey, hcolon, h⟩

theorem readKeyQuote_inv {first : Bool} {cs cs' : List Char}
    (h : Json.readKeyQuote first cs = .ok ((), cs')) :
    (first = true ∧ cs = '"' :: cs') ∨
      (first = false ∧ ∃ rest, cs = ',' :: rest ∧ Json.skipSpace rest = '"' :: cs') := by
  unfold Json.readKeyQuote at h
  split at h
  · cases h
    exact .inl ⟨rfl, rfl⟩
  · cases h
  · split at h
    · cases h
    · rename_i heq
      cases h
      exact .inr ⟨rfl, _, rfl, heq⟩
    · cases h
    · cases h
  · cases h

theorem readColon_inv {cs cs' : List Char} (h : Json.readColon cs = .ok ((), cs')) :
    Json.skipSpace cs = ':' :: cs' := by
  unfold Json.readColon at h
  split at h
  · cases h
  · rename_i heq
    cases h
    exact heq
  · cases h

/-- One more item is spelt, if values and items are for less fuel. -/
theorem itemsSpelt_succ (hv : ValuesSpelt fuel) (hi : ItemsSpelt fuel) :
    ItemsSpelt (fuel + 1) := by
  intro depth first ss items out hs hf h
  rcases readItems_inv h with ⟨heq, rfl⟩ | ⟨cs', hcomma, h⟩
  · rw [skipSpace_chars hs.ok] at heq
    obtain ⟨uu, rfl, hout⟩ := mark_of_chars hs.ok (by decide) heq
    exact ⟨[], uu, by cases first <;> rfl, by simp, rfl, hout⟩
  · -- what stands before the item
    have hitem : ∃ vv, ss = (if first then [] else [.mark ","]) ++ vv ∧ cs' = chars vv := by
      rw [skipSpace_chars hs.ok] at hcomma
      cases first with
      | true =>
        cases hcomma
        exact ⟨ss, rfl, rfl⟩
      | false =>
        obtain ⟨rest, heq, hcs⟩ := readItemComma_inv hcomma
        obtain ⟨vv, rfl, rfl⟩ := mark_of_chars hs.ok (by decide) heq
        exact ⟨vv, rfl, by rw [hcs, skipSpace_chars hs.tail.ok]⟩
    obtain ⟨vv, rfl, rfl⟩ := hitem
    have hvv : Separate vv := hs.suffix (List.suffix_append _ vv)
    have hlen : (chars vv).length ≤ (chars ((if first then [] else [.mark ","]) ++ vv)).length := by
      rw [chars_append, List.length_append]
      omega
    obtain ⟨x, xs, cs', hx, hxs, rfl⟩ := readItemThen_inv h
    rcases hv hvv (by omega) hx with ⟨c, tail, rfl, hc⟩ | ⟨tt, uu, rfl, htt, rfl⟩
    · obtain ⟨f, hstuck⟩ := Json.readItems_stuck fuel depth hc tail
      rw [hstuck] at hxs
      cases hxs
    · have hpos := htt.length_pos fun s hm => hvv.ok s (List.mem_append_left _ hm)
      rw [chars_append, List.length_append] at hlen
      obtain ⟨parts, uu, rfl, hparts, rfl, hout⟩ :=
        hi (hvv.suffix (List.suffix_append tt _)) (by omega) hxs
      refine ⟨(tt, x) :: parts, uu, ?_, ?_, rfl, hout⟩
      · rw [List.map_cons, separated_cons, List.append_assoc, List.append_assoc]
      · rintro p hp
        rcases List.mem_cons.mp hp with rfl | hp
        · exact htt
        · exact hparts p hp

/-- What stands before the value of a field: a comma unless the field is the first, a key, and a
colon. -/
theorem key_of_chars {first : Bool} {key cs₁ cs₂ cs₃ : List Char} (hs : Separate ss)
    (hf : (chars ss).length < fuel)
    (hquote : Json.readKeyQuote first (Json.skipSpace (chars ss)) = .ok ((), cs₁))
    (hkey : Json.readString fuel cs₁ = .ok (key, cs₂))
    (hcolon : Json.readColon cs₂ = .ok ((), cs₃)) :
    ∃ k ww, ss = (if first then [] else [.mark ","]) ++ .datum (.string k) :: .mark ":" :: ww ∧
      String.ofList key = k ∧ cs₃ = chars ww := by
  have hquoted : ∃ vv, ss = (if first then [] else [.mark ","]) ++ vv ∧ chars vv = '"' :: cs₁ := by
    rw [skipSpace_chars hs.ok] at hquote
    rcases readKeyQuote_inv hquote with ⟨rfl, heq⟩ | ⟨rfl, rest, heq, hrest⟩
    · exact ⟨ss, rfl, heq⟩
    · obtain ⟨vv, rfl, rfl⟩ := mark_of_chars hs.ok (by decide) heq
      exact ⟨vv, rfl, by rw [← hrest, skipSpace_chars hs.tail.ok]⟩
  obtain ⟨vv, rfl, heq⟩ := hquoted
  have hvv : Separate vv := hs.suffix (List.suffix_append _ vv)
  obtain ⟨k, uu, rfl, rfl⟩ := string_of_chars hvv.ok heq
  have hlen : (Json.stringText k).length ≤
      (chars ((if first then [] else [.mark ","]) ++ .datum (.string k) :: uu)).length := by
    simp only [chars_append, chars_cons, Symbol.chars, Json.chars, List.length_append]
    omega
  have hk := Json.length_le_chars k
  rw [Json.readString_chars _ (by omega)] at hkey
  cases hkey
  have hcolon := readColon_inv hcolon
  rw [skipSpace_chars hvv.tail.ok] at hcolon
  obtain ⟨ww, rfl, rfl⟩ := mark_of_chars hvv.tail.ok (by decide) hcolon
  exact ⟨k, ww, rfl, String.ofList_toList, rfl⟩

/-- One more field is spelt, if values and fields are for less fuel. -/
theorem fieldsSpelt_succ (hv : ValuesSpelt fuel) (hi : FieldsSpelt fuel) :
    FieldsSpelt (fuel + 1) := by
  intro depth first before ss fields out hs hf h
  rcases readFields_inv h with ⟨heq, rfl⟩ | ⟨cs₁, key, cs₂, cs₃, hquote, hkey, hcolon, h⟩
  · rw [skipSpace_chars hs.ok] at heq
    obtain ⟨uu, rfl, hout⟩ := mark_of_chars hs.ok (by decide) heq
    exact ⟨[], uu, by cases first <;> rfl, by simp, rfl, hout⟩
  · obtain ⟨k, ww, rfl, rfl, rfl⟩ := key_of_chars hs (by omega) hquote hkey hcolon
    have hww : Separate ww := (hs.suffix (List.suffix_append _ _)).tail.tail
    have hlen : (chars ww).length < (chars ((if first then [] else [.mark ","]) ++
        .datum (.string (String.ofList key)) :: .mark ":" :: ww)).length := by
      have hcolon : (Symbol.mark ":").chars.length = 1 := rfl
      simp only [chars_append, chars_cons, List.length_append, hcolon]
      omega
    obtain ⟨x, cs', hx, hrest⟩ := readFieldThen_inv h
    rcases hv hww (by omega) hx with ⟨c, tail, rfl, hc⟩ | ⟨tt, uu, rfl, htt, rfl⟩
    · obtain ⟨f, hstuck⟩ :=
        Json.readFields_stuck fuel depth (Sorted.insert (String.ofList key) x before) hc tail
      rw [hstuck] at hrest
      cases hrest
    · rw [chars_append tt, List.length_append] at hlen
      obtain ⟨parts, uu, rfl, hparts, rfl, hout⟩ :=
        hi (hww.suffix (List.suffix_append tt _)) (by omega) hrest
      refine ⟨(String.ofList key, tt, x) :: parts, uu, ?_, ?_, rfl, hout⟩
      · rw [List.map_cons, separated_cons, List.append_assoc, List.append_assoc]
        rfl
      · rintro p hp
        rcases List.mem_cons.mp hp with rfl | hp
        · exact htt
        · exact hparts p hp

/-- What reading a text comes to was spelt by its symbols if they spell what the text is read as. -/
theorem spelt_of_comes {o : Option Json} {out : List Char} (tt : List Symbol) {uu : List Symbol}
    (h : Comes (chars uu) o (.ok (j, out))) (htt : ∀ v, o = some v → Spells depth tt v) :
    Stuck out ∨ ∃ tt' uu', tt ++ uu = tt' ++ uu' ∧ Spells depth tt' j ∧ out = chars uu' := by
  cases h with
  | read => exact .inr ⟨tt, uu, rfl, htt j rfl, rfl⟩
  | stuck hc => exact .inl ⟨_, _, rfl, hc⟩

theorem spelt_number {cs out : List Char} (tt : List Symbol) {uu : List Symbol}
    (hcs : NumberText cs) (htt : ∀ n, numeral? cs = some n → Spells depth tt (.number n))
    (ha : Apart (chars uu)) (hf : 2 * cs.length ≤ fuel)
    (h : readValue fuel depth (cs ++ chars uu) = .ok (j, out)) :
    Stuck out ∨ ∃ tt' uu', tt ++ uu = tt' ++ uu' ∧ Spells depth tt' j ∧ out = chars uu' := by
  have hnumber : ReadsAs depth cs ((numeral? cs).map .number) := Json.readsAs_number hcs
  refine spelt_of_comes tt (h ▸ hnumber.2 hf ha) fun v hv => ?_
  obtain ⟨n, hn, rfl⟩ := Option.map_eq_some_iff.mp hv
  exact htt n hn

/-- Nothing that ends a number is read as one. -/
theorem readNumber_of_apart {negative : Bool} {cs : List Char} (h : Apart cs) :
    ∃ f, Json.readNumber negative cs = .error f := by
  have hdigit := h.startsWithDigit
  unfold Json.readNumber
  split
  · exact ⟨_, rfl⟩
  · cases hdigit
  · rw [hdigit]
    exact ⟨_, rfl⟩

/-- After a minus sign only a number is read. -/
theorem numeral_of_negative {r : Numeral × List Char} (hok : ∀ s ∈ ss, s.Ok)
    (h : Json.readNumber true (chars ss) = .ok r) : ∃ cs uu, ss = .numeral cs :: uu := by
  by_cases hn : ∀ s ∈ ss.head?, s.isNumeral = false
  · have hno : ∃ f, Json.readNumber true (chars ss) = .error f :=
      readNumber_of_apart (apart_chars hok hn)
    obtain ⟨f, hf⟩ := hno
    rw [hf] at h
    cases h
  · cases ss with
    | nil => cases h
    | cons s ss =>
      cases s with
      | numeral cs => exact ⟨cs, ss, rfl⟩
      | mark _ | datum _ =>
        refine absurd ?_ hn
        rintro _ ⟨⟩
        rfl

/-- After a number comes no other. -/
theorem Separate.head {cs : List Char} (h : Separate (.numeral cs :: ss)) :
    ∀ s ∈ ss.head?, s.isNumeral = false := by
  intro s hs
  have hne := (List.isChain_cons.mp h.joined).1 s hs
  simpa [Symbol.isNumeral] using hne

/-- A mark that a value begins with opens a list or an object, or is the sign of a number. -/
theorem spelt_mark (hi : ItemsSpelt fuel) (hfs : FieldsSpelt fuel) {w : String} {out : List Char}
    (hw : w ∈ punctuation) (hs : Separate (.mark w :: ss)) (hf : 2 * (chars ss).length + 1 < fuel)
    (h : readValue (fuel + 1) depth (w.toList ++ chars ss) = .ok (j, out)) :
    Stuck out ∨ ∃ tt uu, .mark w :: ss = tt ++ uu ∧ Spells depth tt j ∧ out = chars uu := by
  have hmarks : w = ":" ∨ w = "," ∨ w = "]" ∨ w = "\x7d" ∨ w = "[" ∨ w = "\x7b" ∨ w = "-" := by
    simpa [punctuation, or_comm, or_left_comm] using hw
  rcases hmarks with rfl | rfl | rfl | rfl | rfl | rfl | rfl
  any_goals cases h
  · -- a list
    cases depth with
    | zero => cases h
    | succ depth =>
      obtain ⟨⟨items, out'⟩, hitems, h⟩ := bind_eq_ok h
      cases h
      obtain ⟨parts, uu, rfl, hparts, rfl, rfl⟩ := hi hs.tail hf hitems
      refine .inr ⟨_, uu, ?_, .list hparts, rfl⟩
      rw [List.cons_append, List.append_assoc]
      rfl
  · -- an object
    cases depth with
    | zero => cases h
    | succ depth =>
      obtain ⟨⟨fields, out'⟩, hfields, h⟩ := bind_eq_ok h
      cases h
      obtain ⟨parts, uu, rfl, hparts, rfl, rfl⟩ := hfs hs.tail hf hfields
      refine .inr ⟨_, uu, ?_, .object hparts, rfl⟩
      rw [braced, List.cons_append, List.append_assoc]
      rfl
  · -- a minus sign, and the number after it
    obtain ⟨r, hr, -⟩ := bind_eq_ok h
    obtain ⟨cs, uu, rfl⟩ := numeral_of_negative hs.tail.ok hr
    cases hs.tail.ok (.numeral cs) List.mem_cons_self with
    | numeral hcs =>
      refine spelt_number [_, _] hcs.minus (fun n hn => .negative hn)
        (apart_chars hs.tail.tail.ok hs.tail.head) ?_ h
      rw [chars_cons, List.length_append, Symbol.chars] at hf
      rw [List.length_cons]
      omega

/-- One more value is spelt, if items and fields are for less fuel. -/
theorem valuesSpelt_succ (hi : ItemsSpelt fuel) (hfs : FieldsSpelt fuel) :
    ValuesSpelt (fuel + 1) := by
  intro depth ss j out hs hf h
  cases ss with
  | nil => cases h
  | cons s ss =>
    rw [chars_cons] at hf h
    rw [List.length_append] at hf
    cases hs.ok s List.mem_cons_self with
    | numeral hcs =>
      exact spelt_number [_] hcs (fun n hn => .numeral hn)
        (apart_chars hs.tail.ok hs.head) (by rw [Symbol.chars] at hf; omega) h
    | @datum j' hj =>
      rw [Symbol.chars] at hf h
      have hlen : 2 * j'.chars.length ≤ fuel + 1 := by omega
      have hread := (Json.closes_reread j' hj depth).2 (chars ss) hlen
      exact spelt_of_comes [_] (h ▸ hread) fun _ hv => .datum hv
    | @mark w hw =>
      have hlen : w.toList.length = 1 := by
        obtain ⟨c, hw, -⟩ := mark_head hw
        rw [hw]
        rfl
      rw [Symbol.chars, hlen] at hf
      exact spelt_mark hi hfs hw hs (by omega) h

theorem allSpelt (fuel : Nat) : ValuesSpelt fuel ∧ ItemsSpelt fuel ∧ FieldsSpelt fuel := by
  induction fuel with
  | zero =>
    refine ⟨?_, ?_, ?_⟩
    · intro _ _ _ _ _ hf
      cases hf
    · intro _ _ _ _ _ _ hf
      cases hf
    · intro _ _ _ _ _ _ _ hf
      cases hf
  | succ fuel ih =>
    obtain ⟨hv, hi, hf⟩ := ih
    exact ⟨valuesSpelt_succ hi hf, itemsSpelt_succ hv hi, fieldsSpelt_succ hv hf⟩

/-- The text of symbols is read as a value exactly if they spell it. -/
theorem readAll_chars (hs : Separate ss) :
    Json.readAll (chars ss) = .ok j ↔ Spells Json.maxDepth ss j := by
  constructor
  · intro h
    obtain ⟨⟨value, out⟩, hvalue, h⟩ := bind_eq_ok h
    rcases (allSpelt _).1 hs (by omega) hvalue with ⟨c, tail, rfl, hc⟩ | ⟨tt, uu, rfl, htt, rfl⟩
    · simp only [Json.skipSpace_stuck hc] at h
      cases h
    · have huu : ∀ s ∈ uu, s.Ok := fun s hm => hs.ok s (List.mem_append_right _ hm)
      simp only [skipSpace_chars huu] at h
      split at h
      · rename_i heq
        cases h
        have hnil : uu = [] := by
          cases uu with
          | nil => rfl
          | cons s uu =>
            have hne := (huu s List.mem_cons_self).head
            rw [chars_cons] at heq
            rcases hne with ⟨c, -, hc, -⟩ | ⟨-, c, tail, hc, -⟩
            all_goals
              rw [hc] at heq
              cases heq
        rwa [hnil, List.append_nil]
      · cases h
  · intro h
    have hread := (h.readsAs hs.ok).readAll
    cases hall : Json.readAll (chars ss) with
    | error f =>
      rw [hall] at hread
      cases hread
    | ok j' =>
      rw [hall] at hread
      obtain rfl := Option.some.inj hread
      rfl

/-! ## Numbers side by side -/

/-- The symbols with one more in front, which a number at the front takes in. -/
theorem join_cons (s : Symbol) (ss : List Symbol) :
    (∃ a b rest, s = .numeral a ∧ join ss = .numeral b :: rest ∧
      join (s :: ss) = .numeral (a ++ b) :: rest) ∨
    (join (s :: ss) = s :: join ss ∧
      ∀ t ∈ (join ss).head?, ¬ (s.isNumeral = true ∧ t.isNumeral = true)) := by
  cases s with
  | mark w => exact .inr ⟨rfl, fun t _ ht => nomatch ht.1⟩
  | datum j => exact .inr ⟨rfl, fun t _ ht => nomatch ht.1⟩
  | numeral a =>
    rw [join]
    cases hj : join ss with
    | nil => exact .inr ⟨rfl, nofun⟩
    | cons t rest =>
      cases t with
      | numeral b => exact .inl ⟨a, b, rest, rfl, rfl, rfl⟩
      | mark w =>
        refine .inr ⟨rfl, fun t ht k => ?_⟩
        obtain rfl := Option.some.inj ht
        exact nomatch k.2
      | datum j =>
        refine .inr ⟨rfl, fun t ht k => ?_⟩
        obtain rfl := Option.some.inj ht
        exact nomatch k.2

theorem chars_join (ss : List Symbol) : chars (join ss) = chars ss := by
  induction ss with
  | nil => rfl
  | cons s ss ih =>
    rcases join_cons s ss with ⟨a, b, rest, rfl, hss, hjoin⟩ | ⟨hjoin, -⟩
    · rw [hss] at ih
      rw [hjoin, chars_cons, chars_cons, ← ih, chars_cons, ← List.append_assoc]
      rfl
    · rw [hjoin, chars_cons, chars_cons, ih]

theorem separate_join (h : ∀ s ∈ ss, s.Ok) : Separate (join ss) := by
  induction ss with
  | nil => exact ⟨nofun, .nil⟩
  | cons s ss ih =>
    have hs := h s List.mem_cons_self
    have hss := ih fun t ht => h t (List.mem_cons_of_mem _ ht)
    rcases join_cons s ss with ⟨a, b, rest, rfl, heq, hjoin⟩ | ⟨hjoin, hne⟩
    · rw [heq] at hss
      rw [hjoin]
      refine ⟨fun t ht => ?_, ?_⟩
      · rcases List.mem_cons.mp ht with rfl | ht
        · cases hs with
          | numeral ha =>
            cases hss.ok _ List.mem_cons_self with
            | numeral hb => exact .numeral (ha.append hb)
        · exact hss.ok t (List.mem_cons_of_mem _ ht)
      · obtain ⟨hhead, hrest⟩ := List.isChain_cons.mp hss.joined
        exact List.isChain_cons.mpr ⟨fun t ht k => hhead t ht ⟨rfl, k.2⟩, hrest⟩
    · rw [hjoin]
      refine ⟨fun t ht => ?_, List.isChain_cons.mpr ⟨hne, hss.joined⟩⟩
      rcases List.mem_cons.mp ht with rfl | ht
      · exact hs
      · exact hss.ok t ht

/-- Where no numbers stand side by side there is nothing to join. -/
theorem join_of_joined (h : Joined ss) : join ss = ss := by
  induction ss with
  | nil => rfl
  | cons s ss ih =>
    obtain ⟨hhead, htail⟩ := List.isChain_cons.mp h
    have hss := ih htail
    rcases join_cons s ss with ⟨a, b, rest, rfl, heq, -⟩ | ⟨hjoin, -⟩
    · rw [hss] at heq
      refine absurd ⟨rfl, rfl⟩ (hhead (.numeral b) ?_)
      rw [heq]
      rfl
    · rw [hjoin, hss]

/-- Of two symbols side by side one is punctuation. -/
def Punctuated (ss : List Symbol) : Prop := ss.IsChain fun a b => a.isMark = true ∨ b.isMark = true

theorem Punctuated.mark_cons (h : Punctuated ss) (w : String) : Punctuated (.mark w :: ss) :=
  List.isChain_cons.mpr ⟨fun _ _ => .inl rfl, h⟩

theorem Punctuated.append_mark {tt : List Symbol} (h : Punctuated ss) (w : String)
    (k : Punctuated tt) : Punctuated (ss ++ .mark w :: tt) := by
  refine List.isChain_append.mpr ⟨h, k.mark_cons w, fun _ _ t ht => ?_⟩
  obtain rfl := Option.some.inj ht
  exact .inr rfl

/-- Parts with commas between them and a mark at the end. -/
theorem punctuated_intercalate {tt : List (List Symbol)} (h : ∀ t ∈ tt, Punctuated t) (w : String) :
    Punctuated ([.mark ","].intercalate tt ++ [.mark w]) := by
  cases tt with
  | nil => exact .singleton _
  | cons t tt =>
    rw [Json.intercalate_cons, List.append_assoc]
    induction tt generalizing t with
    | nil => exact (h t List.mem_cons_self).append_mark w .nil
    | cons u tt ih =>
      rw [List.flatMap_cons, List.cons_append, List.cons_append, List.append_assoc]
      exact (h t List.mem_cons_self).append_mark ","
        (ih u fun v hv => h v (List.mem_cons_of_mem _ hv))

/-- Of two symbols side by side that spell a value, one is punctuation. -/
theorem Spells.punctuated (h : Spells depth ss j) : Punctuated ss := by
  induction h with
  | datum => exact .singleton _
  | numeral => exact .singleton _
  | negative => exact .cons_cons (.inl rfl) (.singleton _)
  | list _ ih =>
    refine (punctuated_intercalate (fun t ht => ?_) "]").mark_cons "["
    obtain ⟨p, hp, rfl⟩ := List.mem_map.mp ht
    exact ih p hp
  | object _ ih =>
    refine (punctuated_intercalate (fun t ht => ?_) "\x7d").mark_cons "\x7b"
    obtain ⟨p, hp, rfl⟩ := List.mem_map.mp ht
    exact List.isChain_cons.mpr ⟨fun t ht => .inr (by obtain rfl := Option.some.inj ht; rfl),
      (ih p hp).mark_cons ":"⟩

/-- Joining keeps the kind of the first symbol. -/
theorem join_head (ss : List Symbol) : ∀ t ∈ ss.head?,
    ∃ t' ∈ (join ss).head?, t'.isMark = t.isMark ∧ t'.isNumeral = t.isNumeral := by
  intro t ht
  cases ss with
  | nil => cases ht
  | cons s ss =>
    obtain rfl := Option.some.inj ht
    rcases join_cons s ss with ⟨a, b, rest, rfl, -, hjoin⟩ | ⟨hjoin, -⟩
    · rw [hjoin]
      exact ⟨_, rfl, rfl, rfl⟩
    · rw [hjoin]
      exact ⟨_, rfl, rfl, rfl⟩

/-- Of two symbols side by side one is punctuation, or both are numbers, if that is so of what they
are joined to. -/
theorem Punctuated.of_join (h : Punctuated (join ss)) :
    ss.IsChain fun a b =>
      (a.isMark = true ∨ b.isMark = true) ∨ (a.isNumeral = true ∧ b.isNumeral = true) := by
  induction ss with
  | nil => exact .nil
  | cons s ss ih =>
    rcases join_cons s ss with ⟨a, b, rest, rfl, heq, hjoin⟩ | ⟨hjoin, -⟩
    · rw [hjoin] at h
      have hss : Punctuated (join ss) := by
        obtain ⟨hhead, hrest⟩ := List.isChain_cons.mp h
        rw [heq]
        exact List.isChain_cons.mpr ⟨hhead, hrest⟩
      refine List.isChain_cons.mpr ⟨fun t ht => .inr ⟨rfl, ?_⟩, ih hss⟩
      obtain ⟨t', ht', -, hnumeral⟩ := join_head ss t ht
      rw [heq] at ht'
      obtain rfl := Option.some.inj ht'
      exact hnumeral.symm
    · rw [hjoin] at h
      obtain ⟨hhead, hrest⟩ := List.isChain_cons.mp h
      refine List.isChain_cons.mpr ⟨fun t ht => .inl ?_, ih hrest⟩
      obtain ⟨t', ht', hmark, -⟩ := join_head ss t ht
      have hs := hhead t' ht'
      rwa [hmark] at hs

/-- What is in braces is an object. -/
theorem Spells.object_of_brace {tt : List Symbol} (h : Spells depth ss j)
    (hs : ss = .mark "\x7b" :: tt) : ∃ fields, j = .object fields := by
  cases h with
  | object => exact ⟨_, rfl⟩
  | datum => cases hs
  | numeral => cases hs
  | negative => exact absurd (Symbol.mark.inj (List.cons.inj hs).1) (by decide)
  | list => exact absurd (Symbol.mark.inj (List.cons.inj hs).1) (by decide)

end Rill.Record
