import Rill.Proofs.Delivers
import Rill.Proofs.Line.Record
import Rill.Proofs.Sessions
import Rill.Proofs.Token

/-!
# JSON text as a line

The compact text of an object is a line that yields the object (`openAny_render`), if its numbers
are integers of 64 bits and none of its texts has a quote in it. The text of every value is cut into
tokens that, inside a record, add operands that are written as the text again (`Copied`): that is so
for punctuation and literals, and is kept when texts follow each other.
-/

namespace Rill

open Record (Awaits Known content punctuation)

variable {context : Context} {before before' : List Operand → Prop} {ys : List Operand}

/-! ## Text that is copied -/

/-- The text is cut into chunks that are tokens, whatever mark follows it, and inside a record these
tokens add operands that are written as the text again. -/
structure Copies (context : Context) (before : List Operand → Prop) (cs : List Char)
    (chunks : List (List Char)) (ys : List Operand) : Prop where
  solid : ∀ chunk ∈ chunks, Token.Solid chunk
  cut : ∀ rest, Token.Parted rest → Token.chunks (cs ++ rest) = chunks ++ Token.chunks rest
  puts : Puts context before (chunks.map String.ofList) ys
  known : ∀ y ∈ ys, Known y
  content : ys.flatMap content = cs

/-- The text is copied inside a record. -/
def Copied (context : Context) (before : List Operand → Prop) (cs : List Char) : Prop :=
  ∃ chunks ys, Copies context before cs chunks ys

namespace Copied

variable {a b : List Char} {c : Char}

theorem nil : Copied context before [] :=
  ⟨[], [], nofun, fun _ _ => rfl, .nil, nofun, rfl⟩

theorem mono (h : Copied context before a) (hb : ∀ xs, before' xs → before xs) :
    Copied context before' a := by
  obtain ⟨chunks, ys, h⟩ := h
  exact ⟨chunks, ys, h.solid, h.cut, fun _ _ _ _ hs hxs => h.puts hs (hb _ hxs), h.known, h.content⟩

/-- A chunk that is one token and one operand. -/
theorem single {x : Operand} {state : Token.State} (hs : Token.Solid a)
    (ha : Token.State.after? a = some state) (hstop : ∀ rest, Token.Parted rest → state.Stops rest)
    (ht : Adds context before (String.ofList a) x) (hk : Known x) (hc : Record.content x = a) :
    Copied context before a :=
  ⟨[a], [x], by simpa using hs, fun rest hr => Token.chunks_append ha (hstop rest hr), ht.puts,
    by simpa using hk, by simpa using hc⟩

/-- Text that may stand after anything follows other text. -/
theorem append (h : Copied context before a) (k : Copied context (fun _ => True) b)
    (hb : Token.Parted b) : Copied context before (a ++ b) := by
  obtain ⟨chunks, ys, h⟩ := h
  obtain ⟨chunks', zs, k⟩ := k
  refine ⟨chunks ++ chunks', ys ++ zs, ?_, fun rest hr => ?_, ?_, ?_, ?_⟩
  · intro chunk hchunk
    rcases List.mem_append.mp hchunk with hchunk | hchunk
    · exact h.solid chunk hchunk
    · exact k.solid chunk hchunk
  · have hmark : Token.Parted (b ++ rest) := by
      cases b with
      | nil => exact hr
      | cons c b => exact hb
    rw [List.append_assoc, h.cut _ hmark, k.cut rest hr, List.append_assoc]
  · rw [List.map_append]
    exact h.puts.append k.puts fun _ _ => trivial
  · intro y hy
    rcases List.mem_append.mp hy with hy | hy
    · exact h.known y hy
    · exact k.known y hy
  · rw [List.flatMap_append, h.content, k.content]

/-- After a mark a value may begin. -/
theorem mark_append (hc : c = ':' ∨ c = ',' ∨ c = '[' ∨ c = ']') (k : Copied context Awaits b) :
    Copied context (fun _ => True) (c :: b) := by
  obtain ⟨chunks, ys, k⟩ := k
  have hmark : Token.isMark c = true := by
    rcases hc with rfl | rfl | rfl | rfl <;> rfl
  have hword : punctuation.contains (String.ofList [c]) = true := by
    rcases hc with rfl | rfl | rfl | rfl <;> rfl
  have hadds : Adds context (fun _ => True) (String.ofList [c]) (.word (String.ofList [c])) := by
    intro p s tokens xs hs _
    rcases hc with rfl | rfl | rfl | rfl
    · exact token_mark hs (.inl rfl)
    · exact token_mark hs (.inr (.inl rfl))
    · exact token_mark hs (.inr (.inr (.inl rfl)))
    · exact token_mark hs (.inr (.inr (.inr (.inl rfl))))
  have hsolid : Token.Solid [c] := by
    rcases hc with rfl | rfl | rfl | rfl <;> exact Token.solid_of_all nofun rfl
  refine ⟨[c] :: chunks, .word (String.ofList [c]) :: ys, ?_, fun rest hr => ?_, ?_, ?_, ?_⟩
  · simpa using ⟨hsolid, k.solid⟩
  · rw [List.cons_append, List.cons_append, ← k.cut rest hr]
    exact Token.chunks_append (Token.after?_mark hmark) (Token.stops_idle _)
  · exact hadds.puts.append k.puts fun xs _ => Record.awaits_append hword xs
  · simpa using ⟨.inl hword, k.known⟩
  · rw [List.flatMap_cons, k.content, Record.content, String.toList_ofList]
    rfl

theorem mark (hc : c = ':' ∨ c = ',' ∨ c = '[' ∨ c = ']') : Copied context (fun _ => True) [c] :=
  mark_append hc nil

/-- A literal that is one chunk. -/
theorem literal {j : Json} {state : Token.State} (hs : Token.Solid j.chars)
    (ha : Token.State.after? j.chars = some state)
    (hstop : ∀ rest, Token.Parted rest → state.Stops rest)
    (hr : Leaf.read j.render = .ok (.value (.json j))) : Copied context before j.chars :=
  single hs ha hstop (fun _ _ _ _ hs _ => token_literal hs hr) (.inr ⟨_, rfl⟩) rfl

theorem null : Copied context before (Json.chars .null) :=
  literal (Token.solid_of_all (by simp [Json.chars]) rfl) rfl (fun _ => Token.stops_word) rfl

theorem bool (b : Bool) : Copied context before (Json.chars (.bool b)) := by
  cases b <;> refine literal (Token.solid_of_all ?_ rfl) rfl (fun _ => Token.stops_word) rfl
  all_goals simp [Json.chars]

theorem not_mem_escaped (hc : c ≠ '"') : '"' ∉ Json.escaped c := by
  have hdigit : ∀ k < 16, k.digitChar ≠ '"' := by decide
  unfold Json.escaped
  split
  · exact absurd rfl hc
  iterate 6 decide
  split
  · rename_i hn
    have h₁ := hdigit (c.toNat / 16) (by omega)
    have h₂ := hdigit (c.toNat % 16) (by omega)
    simp [Json.hexPair, h₁.symm, h₂.symm]
  · simpa using hc.symm

/-- A text without quotes is one chunk. -/
theorem after?_stringText {t : String} (ht : '"' ∉ t.toList) :
    Token.State.after? (Json.stringText t) = some (.quoted none) := by
  have hbody : ∀ cs : List Char, '"' ∉ cs →
      cs.foldlM Token.State.extend? (.quoted (some '"')) = some (.quoted (some '"')) := by
    intro cs hcs
    induction cs with
    | nil => rfl
    | cons c cs ih =>
      have hne : c ≠ '"' := fun h => hcs (h ▸ List.mem_cons_self)
      rw [List.foldlM_cons]
      simp only [Token.State.extend?, beq_false_of_ne hne, Bool.false_eq_true, ↓reduceIte]
      exact ih fun h => hcs (List.mem_cons_of_mem _ h)
  have hquote : '"' ∉ t.toList.flatMap Json.escaped := by
    intro h
    obtain ⟨c, hc, hmem⟩ := List.mem_flatMap.mp h
    exact not_mem_escaped (fun he => ht (he ▸ hc)) hmem
  show (t.toList.flatMap Json.escaped ++ ['"']).foldlM Token.State.extend? (.quoted (some '"')) = _
  rw [List.foldlM_append, hbody _ hquote]
  rfl

theorem string {t : String} (ht : '"' ∉ t.toList) :
    Copied context before (Json.chars (.string t)) := by
  have hchars : Json.chars (.string t) = Json.stringText t := by rw [Json.chars]
  have hread : Leaf.read (Json.string t).render = .ok (.value (.json (.string t))) := by
    have he : Json.Exact (fun _ => True) Json.maxDepth (.string t) := .string trivial
    have hlist :
        (Json.string t).render.toList = '"' :: (t.toList.flatMap Json.escaped ++ ['"']) := by
      rw [Json.render, hchars]
      exact String.toList_ofList
    unfold Leaf.read
    rw [hlist]
    rw [he.value_read]
    rfl
  refine literal (.inl ⟨'"', _, by rw [hchars]; rfl, rfl⟩) ?_
    (fun rest _ => Token.stops_quoted rest) hread
  rw [hchars]
  exact after?_stringText ht

/-- What a decimal digit is not. -/
theorem digit_cases (h : c.isDigit = true) :
    (Token.isDigit c = true ∧ Token.isQuote c = false ∧ Token.isOperatorChar c = false) ∧
    Text.isBlank c = false ∧ c ∉ ['.', 'x', 'X', '$', '\x60', '\'', '"', '>'] := by
  have hall : ∀ n < 58, 48 ≤ n →
      (Token.isDigit (Char.ofNat n) = true ∧ Token.isQuote (Char.ofNat n) = false ∧
        Token.isOperatorChar (Char.ofNat n) = false) ∧
      Text.isBlank (Char.ofNat n) = false ∧
      Char.ofNat n ∉ ['.', 'x', 'X', '$', '\x60', '\'', '"', '>'] := by decide
  simp only [Char.isDigit, Bool.and_eq_true, decide_eq_true_eq, ge_iff_le,
    UInt32.le_iff_toNat_le] at h
  have hc := hall c.toNat (Nat.lt_succ_of_le h.2) h.1
  rwa [Char.ofNat_toNat] at hc

theorem after?_digits {ds : List Char} (h : ∀ d ∈ c :: ds, d.isDigit = true) :
    ∃ base, Token.State.after? (c :: ds) = some (.number base) := by
  have hgo : ∀ (base : Token.Base) (ds : List Char), base ≠ .hex →
      (∀ c ∈ ds, c.isDigit = true) →
      ∃ base', ds.foldlM Token.State.extend? (.number base) = some (.number base') := by
    intro base ds hb hds
    induction ds generalizing base with
    | nil => exact ⟨base, rfl⟩
    | cons d ds ih =>
      obtain ⟨⟨hd, -, -⟩, -, hne⟩ := digit_cases (hds d List.mem_cons_self)
      have hx : d ≠ 'x' := fun he => hne (by simp [he])
      have hstep : Token.State.extend? (.number base) d = some (.number .decimal) := by
        cases base with
        | unknown => simp [Token.State.extend?, hx, hd]
        | decimal => simp [Token.State.extend?, hd]
        | hex => exact absurd rfl hb
      rw [List.foldlM_cons, hstep]
      exact ih .decimal (by decide) fun c hc => hds c (List.mem_cons_of_mem _ hc)
  obtain ⟨⟨hd, hquote, hop⟩, -, -⟩ := digit_cases (h c List.mem_cons_self)
  have hfirst : Token.State.ofFirst c = .number (if c == '0' then .unknown else .decimal) := by
    simp [Token.State.ofFirst, hquote, hop, hd]
  show ∃ base, ds.foldlM Token.State.extend? (Token.State.ofFirst c) = some (.number base)
  rw [hfirst]
  exact hgo _ ds (by split <;> decide) fun d hd => h d (List.mem_cons_of_mem _ hd)

theorem read_digits {ds : List Char} {v : Value} (h : ∀ d ∈ c :: ds, d.isDigit = true)
    (hv : Value.read (String.ofList (c :: ds)) = .ok v) :
    Leaf.read (String.ofList (c :: ds)) = .ok (.value v) := by
  obtain ⟨-, -, hne⟩ := digit_cases (h c List.mem_cons_self)
  have hhex : Leaf.hexDigits? (String.ofList (c :: ds)) = none := by
    unfold Leaf.hexDigits?
    rw [String.toList_ofList]
    split
    · rename_i heq
      obtain ⟨-, rfl⟩ := List.cons.inj heq
      have := h 'x' (by simp)
      cases this
    · rename_i heq
      obtain ⟨-, rfl⟩ := List.cons.inj heq
      have := h 'X' (by simp)
      cases this
    · rfl
  unfold Leaf.read
  rw [String.toList_ofList]
  split
  iterate 4
    rename_i heq
    obtain ⟨rfl, -⟩ := List.cons.inj heq
    exact absurd (by decide) hne
  simp only [hhex, hv]

theorem natural {n : Nat} (hn : n ≤ Json.maxSignificand) :
    Copied context before (Nat.toDigits 10 n) := by
  have hmax : n ≤ 0xffffffffffffffff := hn
  have hchars : Json.chars (.number (.int n)) = Nat.toDigits 10 n := by
    rw [Json.chars, Numeral.text, Number.intText, if_neg (by omega), Int.natAbs_natCast,
      Number.digitsOf]
  have he : Json.Exact (fun _ => True) Json.maxDepth (.number (.int n)) :=
    .int ⟨by rw [Numeral.minInt]; omega, by rw [Numeral.maxInt]; omega⟩
  obtain ⟨c, ds, hds, -⟩ := Json.toDigits_head n
  have hdigit : ∀ d ∈ c :: ds, d.isDigit = true := hds ▸ Json.isDigit_toDigits
  obtain ⟨base, hbase⟩ := after?_digits hdigit
  rw [← hchars]
  refine literal (.inr ⟨by rw [hchars, hds]; simp, ?_⟩) (by rw [hchars, hds]; exact hbase)
    (fun _ hr => Token.stops_number hr base) ?_
  · rw [hchars, hds]
    intro d hd
    obtain ⟨⟨-, hquote, -⟩, hblank, hne⟩ := digit_cases (hdigit d hd)
    exact ⟨hquote, hblank, fun he => hne (by simp [he])⟩
  · have hread : Value.read (Json.number (.int n)).render = .ok (.json (.number (.int n))) :=
      he.value_read
    rw [Json.render, hchars, hds] at hread ⊢
    exact read_digits hdigit hread

/-- A minus sign goes before a number where a value begins. -/
theorem negative {n : Nat} (hn : n ≤ Json.maxSignificand) :
    Copied context Awaits ('-' :: Nat.toDigits 10 n) := by
  have hnat : Copied context (fun _ => True) (Nat.toDigits 10 n) := natural hn
  obtain ⟨chunks, ys, k⟩ := hnat
  obtain ⟨c, ds, hds, -⟩ := Json.toDigits_head n
  have hdigit : c.isDigit = true := Json.isDigit_toDigits c (hds ▸ List.mem_cons_self)
  have hadds : Adds context Awaits "-" (.word "-") :=
    fun _ _ _ _ hs hxs => token_mark hs (.inr (.inr (.inr (.inr ⟨rfl, hxs⟩))))
  refine ⟨['-'] :: chunks, .word "-" :: ys, ?_, fun rest hr => ?_, ?_, ?_, ?_⟩
  · simpa using ⟨Token.solid_of_all nofun rfl, k.solid⟩
  · rw [List.cons_append, List.cons_append, ← k.cut rest hr]
    have hafter : Token.State.after? ['-'] = some (.operator (some '-')) := rfl
    refine Token.chunks_append hafter ?_
    rw [hds]
    intro d hd
    obtain rfl := Option.some.inj hd
    obtain ⟨⟨hd, -, -⟩, -, hne⟩ := digit_cases hdigit
    have hpair : Token.isPair '-' c = false := by
      have hgreater : c ≠ '>' := fun he => hne (by simp [he])
      simp [Token.isPair, hgreater]
    simp [Token.State.extend?, hpair, hd]
  · exact hadds.puts.append k.puts fun _ _ => trivial
  · simpa using ⟨.inl rfl, k.known⟩
  · rw [List.flatMap_cons, k.content]
    rfl

/-- Texts with commas in front of them, and what follows them. -/
theorem commas {α : Type} {text : α → List Char} {items : List α}
    (h : ∀ x ∈ items, Copied context Awaits (text x)) (k : Copied context (fun _ => True) b)
    (hb : Token.Parted b) :
    Copied context (fun _ => True) ((items.flatMap fun x => ',' :: text x) ++ b) ∧
      Token.Parted ((items.flatMap fun x => ',' :: text x) ++ b) := by
  induction items with
  | nil => exact ⟨k, hb⟩
  | cons x items ih =>
    obtain ⟨hrest, hparted⟩ := ih fun y hy => h y (List.mem_cons_of_mem _ hy)
    rw [List.flatMap_cons, List.cons_append, List.cons_append, List.append_assoc]
    exact ⟨mark_append (.inr (.inl rfl)) ((h x List.mem_cons_self).append hrest hparted),
      Token.parted_cons rfl _⟩

theorem field {f : String × Json} (hk : '"' ∉ f.1.toList) (h : Copied context Awaits f.2.chars) :
    Copied context before (Json.fieldText f) := by
  have hkey : Copied context before (Json.chars (.string f.1)) := string hk
  rw [Json.chars] at hkey
  exact hkey.append (mark_append (.inl rfl) h) (Token.parted_cons rfl _)

theorem list {items : List Json} (h : ∀ j ∈ items, Copied context Awaits j.chars) :
    Copied context (fun _ => True) (Json.chars (.list items)) := by
  rw [Json.chars]
  refine mark_append (.inr (.inr (.inl rfl))) ?_
  cases items with
  | nil => exact (mark (.inr (.inr (.inr rfl)))).mono fun _ _ => trivial
  | cons x items =>
    obtain ⟨hrest, hparted⟩ := commas (fun j hj => h j (List.mem_cons_of_mem _ hj))
      (mark (.inr (.inr (.inr rfl)))) (Token.parted_cons rfl [])
    rw [Json.itemChars_cons, List.append_assoc]
    exact (h x List.mem_cons_self).append hrest hparted

theorem fields {fields : List (String × Json)} (hk : ∀ f ∈ fields, '"' ∉ f.1.toList)
    (h : ∀ f ∈ fields, Copied context Awaits f.2.chars) :
    Copied context before (Json.fieldChars fields) := by
  cases fields with
  | nil => rw [Json.fieldChars]; exact nil
  | cons f fs =>
    have hfs : ∀ g ∈ fs, Copied context Awaits (Json.fieldText g) := fun g hg =>
      field (hk g (List.mem_cons_of_mem _ hg)) (h g (List.mem_cons_of_mem _ hg))
    obtain ⟨hrest, hparted⟩ := commas hfs nil Token.parted_nil
    rw [List.append_nil] at hrest hparted
    rw [Json.fieldChars_cons]
    exact (field (hk f List.mem_cons_self) (h f List.mem_cons_self)).append hrest hparted

end Copied

/-! ## Objects -/

/-- Braces are chunks of their own. -/
theorem Copies.chunks_braces {cs : List Char} {chunks : List (List Char)}
    (h : Copies context before cs chunks ys) (rest : List Char) :
    Token.chunks ('\x7b' :: (cs ++ '\x7d' :: rest)) =
      ['\x7b'] :: (chunks ++ ['\x7d'] :: Token.chunks rest) := by
  have hopen : Token.chunks ('\x7b' :: (cs ++ '\x7d' :: rest)) =
      ['\x7b'] :: Token.chunks (cs ++ '\x7d' :: rest) :=
    Token.chunks_append (Token.after?_mark rfl) (Token.stops_idle _)
  have hclose : Token.chunks ('\x7d' :: rest) = ['\x7d'] :: Token.chunks rest :=
    Token.chunks_append (Token.after?_mark rfl) (Token.stops_idle _)
  rw [hopen, h.cut _ (Token.parted_cons rfl rest), hclose]

theorem Copies.solid_braces {cs : List Char} {chunks : List (List Char)}
    (h : Copies context before cs chunks ys) :
    ∀ chunk ∈ ['\x7b'] :: (chunks ++ [['\x7d']]), Token.Solid chunk := by
  have hopen : Token.Solid ['\x7b'] := Token.solid_of_all nofun rfl
  have hclose : Token.Solid ['\x7d'] := Token.solid_of_all nofun rfl
  intro chunk hchunk
  simp only [List.mem_cons, List.mem_append, List.not_mem_nil, or_false] at hchunk
  rcases hchunk with rfl | hchunk | rfl
  · exact hopen
  · exact h.solid chunk hchunk
  · exact hclose

/-- A value is copied where a value may begin, if its texts have no quotes. -/
theorem Json.Exact.copied {depth : Nat} {j : Json}
    (h : Json.Exact (fun t => '"' ∉ t.toList) depth j) (hd : depth ≤ Json.maxDepth) :
    Copied context Awaits j.chars := by
  induction h with
  | null => exact .null
  | bool b => exact .bool b
  | @int _ n h =>
    have hmin : -0x8000000000000000 ≤ n := h.1
    have hmax : n ≤ 0xffffffffffffffff := h.2
    have hn : n.natAbs ≤ Json.maxSignificand := by
      show n.natAbs ≤ 0xffffffffffffffff
      omega
    rw [Json.chars, Numeral.text, Number.intText, Number.digitsOf]
    split
    · exact .negative hn
    · exact .natural hn
  | string h => exact .string h
  | list _ ih => exact (Copied.list fun j hj => ih j hj (by omega)).mono fun _ _ => trivial
  | @object depth fields hs hk h ih =>
    have he : Json.Exact (fun t => '"' ∉ t.toList) Json.maxDepth (.object fields) :=
      (Json.Exact.object hs hk h).mono hd
    obtain ⟨chunks, ys, k⟩ : Copied context Awaits (Json.fieldChars fields) :=
      .fields hk fun f hf => ih f hf (by omega)
    refine ⟨['\x7b'] :: (chunks ++ [['\x7d']]), [.value (.json (.object fields))], k.solid_braces,
      fun rest _ => ?_, ?_, ?_, ?_⟩
    · rw [Json.chars, List.cons_append, List.append_assoc]
      simpa using k.chunks_braces rest
    · intro p s rest xs hin hxs
      have hopen (tokens : List String) :
          Parse.opensClosure { s with operands := xs } p.pending tokens = false := by
        simp [Parse.opensClosure, Nat.ne_of_gt hin.depth]
      have hall := all_record rest hin.closure hin.scope hxs hopen k.puts
        (Record.build_of_content hin.scope k.known k.content he)
      simpa using hall
    · simpa using .inr ⟨_, rfl⟩
    · simp [content, Value.toJson]

/-! ## Lines -/

theorem Json.Exact.copied_fields {depth : Nat} {fields : List (String × Json)}
    (h : Json.Exact (fun t => '"' ∉ t.toList) depth (.object fields)) (hd : depth ≤ Json.maxDepth) :
    Copied context Awaits (Json.fieldChars fields) := by
  cases h with
  | object _ hk hf => exact .fields hk fun f hmem => (hf f hmem).copied (by omega)

/-- The text of an object is a line of one known value. -/
theorem Json.Exact.parse_render {fields : List (String × Json)}
    (h : Json.Exact (fun t => '"' ∉ t.toList) Json.maxDepth (.object fields)) (w : World) :
    parse context (Token.texts (Json.object fields).render) w =
      (.ok (.sequence .empty [.value (.json (.object fields))], .default), w) := by
  obtain ⟨chunks, ys, k⟩ : Copied context Awaits (Json.fieldChars fields) :=
    h.copied_fields (Nat.le_refl _)
  have htexts : Token.texts (Json.object fields).render =
      "\x7b" :: (chunks.map String.ofList ++ ["\x7d"]) := by
    rw [Token.texts, Token.scan, Json.render, String.toList_ofList, Json.chars, k.chunks_braces [],
      show Token.chunks [] = [] from rfl, Token.text_ofChunks k.solid_braces, List.map_cons,
      List.map_append]
    rfl
  have hscope (word : String) (_ : punctuation.contains word = true) :
      Scope.empty.isVarPath word = false := rfl
  let ground : Parse := ⟨[], [], [], [], w.slots, w.env⟩
  have hall : Parse.all context ("\x7b" :: (chunks.map String.ofList ++ ["\x7d"]))
      (.start w ("\x7b" :: (chunks.map String.ofList ++ ["\x7d"]))) =
      .ok () (ground.on { scope := .empty } [] [.value (.json (.object fields))]) :=
    all_record (s := { scope := .empty }) (p := ground) [] rfl hscope Record.awaits_nil
      (fun _ => rfl) k.puts (Record.build_of_content hscope k.known k.content h)
  rw [htexts, parse_of_ok ((Parse.bind_ok hall).trans rfl)]
  rfl

open Run (Ends)

/-- The text of an object whose numbers are integers of 64 bits, whose texts have no quotes and that
is not too deep to be read is a line that yields the object and nothing else. -/
theorem openAny_render (context : Context) (w : World) {fields : List (String × Json)}
    (h : Json.Exact (fun t => '"' ∉ t.toList) Json.maxDepth (.object fields)) :
    ∃ s, Ends (fun n => Session.openAny context n (Json.object fields).render) w (s, .default) w ∧
      Delivers context s [.ok (.json (.object fields))] := by
  have hvalue : Operand.Delivers context .empty (.value (.json (.object fields)))
      [.ok (.json (.object fields))] :=
    ⟨_, fun _ => opens_value.mpr ⟨rfl, rfl⟩, .ofValue _⟩
  obtain ⟨s, hmakes, hs⟩ := Factory.Delivers.sequence .empty (.cons hvalue .nil)
  refine ⟨s, ?_, hs⟩
  obtain ⟨n, hn⟩ := Session.ends_openTokens.mpr
    (.inr ⟨_, _, _, s, h.parse_render w, hmakes w, rfl⟩)
  refine ⟨n, fun m hm => ?_⟩
  exact Run.bind_eq_some.mpr ⟨_, _, hn m hm, rfl⟩

/-- Negative numbers, the greatest number, nested lists and objects, empty ones, and escapes. -/
theorem openAny_render_nested :
    ∃ s, Ends (fun n => Session.openAny {} n
        "\x7b\"a\":-5,\"b\":[\x7b\x7d,[null,\"x\\n\"]],\"c\":\x7b\"d\":18446744073709551615\x7d\x7d")
        (.ofEnvironment .empty) (s, .default) (.ofEnvironment .empty) ∧
      Delivers {} s [.ok (.json (.object [("a", .number (.int (-5))),
        ("b", .list [.object [], .list [.null, .string "x\n"]]),
        ("c", .object [("d", .number (.int 18446744073709551615))])]))] := by
  have htext : (Json.object [("a", .number (.int (-5))),
      ("b", .list [.object [], .list [.null, .string "x\n"]]),
      ("c", .object [("d", .number (.int 18446744073709551615))])]).render =
      "\x7b\"a\":-5,\"b\":[\x7b\x7d,[null,\"x\\n\"]],\"c\":\x7b\"d\":18446744073709551615\x7d\x7d" := by
    decide +kernel
  rw [← htext]
  refine openAny_render {} (.ofEnvironment .empty) (.object (by decide) (by decide) ?_)
  have hlist : Json.Exact (fun t => '"' ∉ t.toList) 126
      (.list [.object [], .list [.null, .string "x\n"]]) := by
    refine .list (List.forall_mem_cons.mpr
      ⟨.object .nil (List.forall_mem_nil _) (List.forall_mem_nil _), ?_⟩)
    refine List.forall_mem_cons.mpr
      ⟨.list (List.forall_mem_cons.mpr ⟨.null, ?_⟩), List.forall_mem_nil _⟩
    exact List.forall_mem_cons.mpr ⟨.string (by decide), List.forall_mem_nil _⟩
  have hobject : Json.Exact (fun t => '"' ∉ t.toList) 126
      (.object [("d", .number (.int 18446744073709551615))]) :=
    .object (by decide) (by decide)
      (List.forall_mem_cons.mpr ⟨.int (by decide), List.forall_mem_nil _⟩)
  refine List.forall_mem_cons.mpr ⟨.int (by decide), ?_⟩
  exact List.forall_mem_cons.mpr
    ⟨hlist, List.forall_mem_cons.mpr ⟨hobject, List.forall_mem_nil _⟩⟩

end Rill
