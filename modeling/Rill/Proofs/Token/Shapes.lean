import Mathlib.Data.List.Chain
import Rill.Proofs.Token
import Rill.Proofs.Token.Spans

/-!
# What a token looks like

What the machine knows of the current chunk says which characters it has (`State.Shapes`): each
character that belongs to the chunk keeps this (`State.Shapes.extend`), so that all chunks of a line
but the last are of states that wait for no closing quote, and the last one is of the state in which
the line ends (`shapes_chunks`).

From a chunk to its tokens only `..` is cut out, and what stands between has no two points in a row
(`mem_splitRanges`). So a token is a quoted text, which only the end of the line may leave open, or
it is `Bare` (`token_shape`).
-/

namespace Rill.Token

variable {s s' : State} {c : Char} {cs chunk backwards : List Char} {start pos : Nat} {t : Token}

/-! ## The state after a line -/

/-- The state after one more character, which may begin another chunk. -/
def State.next (s : State) (c : Char) : State := (s.extend? c).getD (.ofFirst c)

/-- The state in which a line ends. -/
def State.atEnd (cs : List Char) : State := cs.foldl State.next .idle

/-- Whether a quoted text waits for its closing quote. -/
def State.isOpen : State → Bool
  | .quoted (some _) => true
  | _ => false

theorem State.next_of_some (h : s.extend? c = some s') : s.next c = s' := by
  rw [State.next, h, Option.getD_some]

theorem State.next_of_none (h : s.extend? c = none) : s.next c = .ofFirst c := by
  rw [State.next, h, Option.getD_none]

/-- Every character goes on with a quoted text that is open. -/
theorem State.isOpen_of_extend? (h : s.extend? c = none) : s.isOpen = false := by
  cases s with
  | quoted close =>
    cases close with
    | none => rfl
    | some close => cases h
  | idle | word | operator _ | number _ => rfl

/-! ## Classes of characters -/

theorem isStructural_of_isQuote (h : isQuote c = true) : isStructural c = true := by
  simp only [isQuote, Bool.or_eq_true, beq_iff_eq] at h
  obtain (rfl | rfl) | rfl := h <;> rfl

/-- What ends no word is neither blank nor structural, and so no quote. -/
theorem of_not_isTerminator (h : isTerminator c = false) :
    Text.isBlank c = false ∧ isStructural c = false ∧ isQuote c = false := by
  obtain ⟨hblank, hstructural⟩ := Bool.or_eq_false_iff.mp h
  refine ⟨hblank, hstructural, Bool.eq_false_iff.mpr fun hquote => ?_⟩
  exact Bool.eq_false_iff.mp hstructural (isStructural_of_isQuote hquote)

/-- What every member of a list passes is passed by whatever the list contains. -/
theorem of_contains {α : Type} [BEq α] [LawfulBEq α] {l : List α} {a : α} {p : α → Bool}
    (hall : l.all p = true) (h : l.contains a = true) : p a = true :=
  List.all_eq_true.mp hall a (List.contains_iff_mem.mp h)

theorem isHexDigit_of_isStructural (h : isStructural c = true) : isHexDigit c = false := by
  have hdigit := of_contains (p := fun d => !isHexDigit d) (by decide) h
  exact (Bool.not_eq_true' _).mp hdigit

theorem isHexDigit_of_isBlank (h : Text.isBlank c = true) : isHexDigit c = false := by
  refine Bool.eq_false_iff.mpr fun hdigit => ?_
  simp only [isHexDigit, isDigit, Bool.or_eq_true, Bool.and_eq_true, decide_eq_true_eq, Char.le_def,
    UInt32.le_iff_toNat_le, Char.reduceVal, UInt32.reduceToNat] at hdigit
  simp only [Text.isBlank, Bool.or_eq_true, Bool.and_eq_true, decide_eq_true_eq, beq_iff_eq,
    Char.toNat] at h
  omega

theorem not_isTerminator_of_isHexDigit (h : isHexDigit c = true) : isTerminator c = false := by
  refine Bool.eq_false_iff.mpr fun hterm => ?_
  rcases Bool.or_eq_true_iff.mp hterm with hblank | hstructural
  · exact Bool.eq_false_iff.mp (isHexDigit_of_isBlank hblank) h
  · exact Bool.eq_false_iff.mp (isHexDigit_of_isStructural hstructural) h

theorem not_isTerminator_of_isDigit (h : isDigit c = true) : isTerminator c = false :=
  not_isTerminator_of_isHexDigit (by rw [isHexDigit, h, Bool.true_or, Bool.true_or])

theorem not_isTerminator_of_decimal (h : (isDigit c || c == '.') = true) :
    isTerminator c = false := by
  rcases Bool.or_eq_true_iff.mp h with hdigit | hpoint
  · exact not_isTerminator_of_isDigit hdigit
  · rw [beq_iff_eq.mp hpoint]
    rfl

/-! ## Chunks -/

/-- The characters of a chunk, by what the machine knows of it. -/
def State.Shapes : State → List Char → Prop
  | .idle, chunk => ∃ c, chunk = [c] ∧ isTerminator c = true ∧ isQuote c = false
  | .word, chunk => ∀ c ∈ chunk, isTerminator c = false
  | .number _, chunk => ∀ c ∈ chunk, isTerminator c = false
  | .operator (some first), chunk => chunk = [first] ∧ isOperatorChar first = true
  | .operator none, chunk => ∃ first second, chunk = [first, second] ∧ isPair first second = true
  | .quoted (some q), chunk => ∃ body, chunk = q :: body ∧ isQuote q = true ∧ q ∉ body
  | .quoted none, chunk => ∃ q body, chunk = q :: (body ++ [q]) ∧ isQuote q = true ∧ q ∉ body

theorem shapes_ofFirst (c : Char) : (State.ofFirst c).Shapes [c] := by
  unfold State.ofFirst
  split
  next hquote => exact ⟨[], rfl, hquote, List.not_mem_nil⟩
  next hquote =>
    split
    next hoperator => exact ⟨rfl, hoperator⟩
    split
    next hdigit =>
      intro d hd
      rw [List.mem_singleton.mp hd]
      exact not_isTerminator_of_isDigit hdigit
    split
    next hterm => exact ⟨c, rfl, hterm, Bool.eq_false_iff.mpr hquote⟩
    next hterm =>
      intro d hd
      rw [List.mem_singleton.mp hd]
      exact Bool.eq_false_iff.mpr hterm

/-- A character that belongs to a chunk keeps what is known of it. -/
theorem State.Shapes.extend (h : s.Shapes chunk) (k : s.extend? c = some s') :
    s'.Shapes (chunk ++ [c]) := by
  have concat {d : List Char} (hd : ∀ e ∈ d, isTerminator e = false)
      (hc : isTerminator c = false) : ∀ e ∈ d ++ [c], isTerminator e = false :=
    List.forall_mem_append.mpr ⟨hd, List.forall_mem_singleton.mpr hc⟩
  unfold State.extend? at k
  split at k
  · cases k
  · split at k <;> cases k
    next hterm => exact concat h (Bool.eq_false_iff.mpr hterm)
  next first =>
    obtain ⟨rfl, -⟩ := h
    split at k
    next hpair =>
      cases k
      exact ⟨first, c, rfl, hpair⟩
    split at k <;> cases k
    next hword =>
      simp only [Bool.and_eq_true, Bool.or_eq_true, beq_iff_eq, Bool.not_eq_true'] at hword
      obtain ⟨⟨rfl | rfl, -⟩, hterm⟩ := hword
      all_goals exact concat (List.forall_mem_singleton.mpr rfl) hterm
  · cases k
  · split at k
    next hx =>
      cases k
      obtain rfl := beq_iff_eq.mp hx
      exact concat h rfl
    split at k <;> cases k
    next hc => exact concat h (not_isTerminator_of_decimal hc)
  · split at k <;> cases k
    next hc => exact concat h (not_isTerminator_of_decimal hc)
  · split at k <;> cases k
    next hc => exact concat h (not_isTerminator_of_isHexDigit hc)
  next close =>
    cases k
    obtain ⟨body, rfl, hquote, hbody⟩ := h
    split
    next hclose =>
      rw [beq_iff_eq.mp hclose]
      exact ⟨close, body, rfl, hquote, hbody⟩
    next hclose =>
      refine ⟨body ++ [c], rfl, hquote, fun hmem => ?_⟩
      rcases List.mem_append.mp hmem with hmem | hmem
      · exact hbody hmem
      · exact hclose (beq_iff_eq.mpr (List.mem_singleton.mp hmem).symm)
  · cases k

/-- A chunk that waits for no closing quote. -/
def Whole (chunk : List Char) : Prop := ∃ s : State, s.Shapes chunk ∧ s.isOpen = false

theorem shapes_chunksAfter (h : s.Shapes backwards.reverse) :
    ∃ front last, chunksAfter s backwards cs = front ++ [last] ∧ (∀ chunk ∈ front, Whole chunk) ∧
      (cs.foldl State.next s).Shapes last := by
  induction cs generalizing s backwards with
  | nil => exact ⟨[], backwards.reverse, rfl, nofun, h⟩
  | cons c cs ih =>
    rw [chunksAfter, List.foldl_cons]
    cases hs : s.extend? c with
    | some next =>
      rw [State.next_of_some hs]
      refine ih ?_
      rw [List.reverse_cons]
      exact h.extend hs
    | none =>
      rw [State.next_of_none hs]
      have hfirst : (State.ofFirst c).Shapes [c].reverse := shapes_ofFirst c
      obtain ⟨front, last, hchunks, hfront, hlast⟩ := ih hfirst
      have hwhole : Whole backwards.reverse := ⟨s, h, State.isOpen_of_extend? hs⟩
      exact ⟨backwards.reverse :: front, last, congrArg (backwards.reverse :: ·) hchunks,
        List.forall_mem_cons.mpr ⟨hwhole, hfront⟩, hlast⟩

/-- All chunks of a line but the last are whole, and the last one is of the state in which the line
ends. -/
theorem shapes_chunks (hne : cs ≠ []) :
    ∃ front last, chunks cs = front ++ [last] ∧ (∀ chunk ∈ front, Whole chunk) ∧
      (State.atEnd cs).Shapes last := by
  cases cs with
  | nil => exact absurd rfl hne
  | cons c cs => exact shapes_chunksAfter (shapes_ofFirst c)

/-! ## Points -/

/-- There are no two points in a row. -/
def Undotted (cs : List Char) : Prop := cs.IsChain fun c d => ¬ (c = '.' ∧ d = '.')

theorem Undotted.not_infix (h : Undotted cs) : ¬ ['.', '.'] <:+: cs := by
  rintro ⟨before, after, rfl⟩
  have hpoints : ['.', '.'].IsChain fun c d => ¬ (c = '.' ∧ d = '.') :=
    (List.isChain_append.mp (List.isChain_append.mp h).1).2.1
  exact (List.isChain_cons_cons.mp hpoints).1 ⟨rfl, rfl⟩

theorem text_of_mem_ofBackwards (ht : t ∈ ofBackwards backwards pos) :
    t.text.toList = backwards.reverse := by
  unfold ofBackwards at ht
  split at ht
  · cases ht
  · rw [List.mem_singleton.mp ht]
    exact String.toList_ofList

/-- What is cut out is `..`, and what stands between has no two points in a row. This is carried by
the characters behind and the next one, which have none either. -/
theorem mem_splitRanges (h : Undotted (backwards.reverse ++ cs.take 1))
    (ht : t ∈ splitRanges backwards pos cs) : t.text = ".." ∨ Undotted t.text.toList := by
  fun_induction splitRanges backwards pos cs with
  | case1 backwards pos cs ih =>
    rcases List.mem_append.mp ht with ht | ht
    · rw [text_of_mem_ofBackwards ht]
      exact .inr (List.isChain_append.mp h).1
    rcases List.mem_cons.mp ht with rfl | ht
    · exact .inl rfl
    · refine ih ?_ ht
      cases cs with
      | nil => exact .nil
      | cons c cs => exact .singleton c
  | case2 backwards pos c cs hdots ih =>
    refine ih ?_ ht
    rw [List.reverse_cons]
    cases cs with
    | nil => rwa [List.take_nil, List.append_nil]
    | cons d cs =>
      refine List.isChain_append.mpr ⟨h, .singleton d, fun a ha b hb k => ?_⟩
      rw [List.getLast?_concat] at ha
      obtain rfl := Option.some.inj ha
      obtain rfl := Option.some.inj hb
      exact hdots cs k.1 (by rw [k.2])
  | case3 backwards pos =>
    rw [text_of_mem_ofBackwards ht]
    exact .inr (List.isChain_append.mp h).1

/-! ## Tokens -/

/-- The characters of a token that is not quoted: there are neither blanks nor quotes among them, no
`..` unless they are one, and no structural character beside another character, unless they are
`<=`, `>=` or `->`. -/
structure Bare (cs : List Char) : Prop where
  blank : ∀ c ∈ cs, Text.isBlank c = false
  quote : ∀ c ∈ cs, isQuote c = false
  range : ['.', '.'] <:+: cs → cs = ['.', '.']
  structural : 1 < cs.length → (∃ c ∈ cs, isStructural c = true) →
    cs = ['<', '='] ∨ cs = ['>', '='] ∨ cs = ['-', '>']

/-- The characters of a text in quotes: the quote that opens it comes again at its end and nowhere
else. -/
def Quoted (cs : List Char) : Prop :=
  ∃ q body, cs = q :: (body ++ [q]) ∧ isQuote q = true ∧ q ∉ body

/-- The characters of a text after an opening quote that does not come again. -/
def Unclosed (cs : List Char) : Prop := ∃ q body, cs = q :: body ∧ isQuote q = true ∧ q ∉ body

theorem ofChunk_of_isQuote (h : isQuote c = true) :
    ofChunk start (c :: cs) = [ofChars start (c :: cs)] := by
  rw [ofChunk, if_pos h]

theorem ofChunk_blank (hblank : Text.isBlank c = true) (hquote : isQuote c = false) :
    ofChunk start [c] = [] := by
  simp [ofChunk, hquote, Text.trimStart, hblank, Text.trimEnd, splitRanges, ofBackwards]

theorem ofChunk_eq_splitRanges (hblank : ∀ c ∈ chunk, Text.isBlank c = false)
    (hquote : ∀ c ∈ chunk, isQuote c = false) :
    ofChunk start chunk = splitRanges [] start chunk := by
  cases chunk with
  | nil => rfl
  | cons c cs =>
    simp only [ofChunk, hquote c List.mem_cons_self, Bool.false_eq_true, ↓reduceIte,
      trimStart_of_solid hblank, trimEnd_of_solid hblank, Nat.sub_self, Nat.add_zero]

theorem toList_of_solid (h : Solid chunk) (ht : t ∈ ofChunk start chunk) :
    t.text.toList = chunk := by
  have hmem : t.text ∈ (ofChunk start chunk).map Token.text := List.mem_map_of_mem ht
  rw [text_ofChunk h] at hmem
  rw [List.mem_singleton.mp hmem, String.toList_ofList]

/-- A character that is neither blank nor a quote, alone. -/
theorem bare_singleton (hblank : Text.isBlank c = false) (hquote : isQuote c = false) :
    Bare [c] where
  blank := by simpa using hblank
  quote := by simpa using hquote
  range h := absurd h.length_le (by simp)
  structural h := absurd h (by simp)

theorem operator_class (h : isOperatorChar c = true) :
    isQuote c = false ∧ Text.isBlank c = false ∧ c ≠ '.' := by
  have hclass := of_contains
    (p := fun d => isQuote d = false ∧ Text.isBlank d = false ∧ d ≠ '.') (by decide) h
  exact of_decide_eq_true hclass

theorem pair_class {first second : Char} (h : isPair first second = true) :
    (∀ c ∈ [first, second], isQuote c = false ∧ Text.isBlank c = false ∧ c ≠ '.') ∧
      ((∃ c ∈ [first, second], isStructural c = true) → [first, second] = ['<', '='] ∨
        [first, second] = ['>', '='] ∨ [first, second] = ['-', '>']) := by
  have hoperators := of_contains (p := fun q => isOperatorChar q.1 && isOperatorChar q.2)
    (by decide) h
  have hstructural := of_contains (p := fun q => (isStructural q.1 || isStructural q.2) = true →
    q = ('<', '=') ∨ q = ('>', '=') ∨ q = ('-', '>')) (by decide) h
  simp only [Bool.and_eq_true, Bool.or_eq_true, decide_eq_true_eq, Prod.mk.injEq]
    at hoperators hstructural
  simp only [List.cons.injEq, and_true]
  constructor
  · exact List.forall_mem_cons.mpr ⟨operator_class hoperators.1,
      List.forall_mem_singleton.mpr (operator_class hoperators.2)⟩
  · rintro ⟨c, hc, hs⟩
    have hc : c = first ∨ c = second := by simpa using hc
    obtain rfl | rfl := hc
    · exact hstructural (.inl hs)
    · exact hstructural (.inr hs)

theorem bare_pair {first second : Char} (h : isPair first second = true) :
    Bare [first, second] := by
  obtain ⟨hclass, hstructural⟩ := pair_class h
  refine ⟨fun c hc => (hclass c hc).2.1, fun c hc => (hclass c hc).1, fun hrange => ?_,
    fun _ => hstructural⟩
  exact (hrange.eq_of_length rfl).symm

/-- A token of a chunk in which nothing ends a word. -/
theorem bare_of_word (h : ∀ c ∈ chunk, isTerminator c = false) (ht : t ∈ ofChunk start chunk) :
    Bare t.text.toList := by
  have hclass : ∀ c ∈ t.text.toList, isTerminator c = false := by
    obtain ⟨before, text, after, rfl, -, rfl⟩ := (laid_ofChunk start chunk).slice ht
    intro c hc
    refine h c (List.mem_append_right _ (List.mem_append_left _ ?_))
    simpa [ofChars] using hc
  rw [ofChunk_eq_splitRanges (fun c hc => (of_not_isTerminator (h c hc)).1)
    fun c hc => (of_not_isTerminator (h c hc)).2.2] at ht
  refine ⟨fun c hc => (of_not_isTerminator (hclass c hc)).1,
    fun c hc => (of_not_isTerminator (hclass c hc)).2.2, fun hrange => ?_, ?_⟩
  · have hfirst : Undotted ([].reverse ++ chunk.take 1) := by
      cases chunk with
      | nil => exact .nil
      | cons c cs => exact .singleton c
    rcases mem_splitRanges hfirst ht with htext | hundotted
    · rw [htext]
      rfl
    · exact absurd hrange hundotted.not_infix
  · rintro - ⟨c, hc, hstructural⟩
    rw [(of_not_isTerminator (hclass c hc)).2.1] at hstructural
    cases hstructural

/-- The tokens of a chunk that waits for no closing quote. -/
theorem quoted_or_bare (h : Whole chunk) (ht : t ∈ ofChunk start chunk) :
    Quoted t.text.toList ∨ Bare t.text.toList := by
  obtain ⟨s, hshapes, hopen⟩ := h
  match s with
  | .idle =>
    obtain ⟨c, rfl, hterm, hquote⟩ := hshapes
    cases hblank : Text.isBlank c with
    | true =>
      rw [ofChunk_blank hblank hquote] at ht
      cases ht
    | false =>
      have hpoint : c ≠ '.' := by
        rintro rfl
        cases hterm
      have hsolid : Solid [c] :=
        .inr ⟨by simp, List.forall_mem_singleton.mpr ⟨hquote, hblank, hpoint⟩⟩
      rw [toList_of_solid hsolid ht]
      exact .inr (bare_singleton hblank hquote)
  | .word => exact .inr (bare_of_word hshapes ht)
  | .number _ => exact .inr (bare_of_word hshapes ht)
  | .operator (some first) =>
    obtain ⟨rfl, hoperator⟩ := hshapes
    have hclass := operator_class hoperator
    have hsolid : Solid [first] := .inr ⟨by simp, List.forall_mem_singleton.mpr hclass⟩
    rw [toList_of_solid hsolid ht]
    exact .inr (bare_singleton hclass.2.1 hclass.1)
  | .operator none =>
    obtain ⟨first, second, rfl, hpair⟩ := hshapes
    have hsolid : Solid [first, second] := .inr ⟨by simp, (pair_class hpair).1⟩
    rw [toList_of_solid hsolid ht]
    exact .inr (bare_pair hpair)
  | .quoted none =>
    obtain ⟨q, body, rfl, hquote, hbody⟩ := hshapes
    rw [ofChunk_of_isQuote hquote] at ht
    rw [List.mem_singleton.mp ht]
    exact .inl ⟨q, body, String.toList_ofList, hquote, hbody⟩
  | .quoted (some _) => cases hopen

/-! ## Lines -/

theorem ofChunks_append (xs ys : List (List Char)) :
    ofChunks start (xs ++ ys) = ofChunks start xs ++ ofChunks (start + byteSize xs.flatten) ys := by
  induction xs generalizing start with
  | nil => rfl
  | cons x xs ih =>
    rw [List.cons_append, ofChunks, ih, ofChunks, List.append_assoc, List.flatten_cons,
      byteSize_append, Nat.add_assoc]

theorem mem_ofChunks {chunks : List (List Char)} (ht : t ∈ ofChunks start chunks) :
    ∃ chunk ∈ chunks, ∃ pos, t ∈ ofChunk pos chunk := by
  induction chunks generalizing start with
  | nil => cases ht
  | cons chunk chunks ih =>
    rcases List.mem_append.mp ht with ht | ht
    · exact ⟨chunk, List.mem_cons_self, start, ht⟩
    · obtain ⟨other, hother, pos, ht⟩ := ih ht
      exact ⟨other, List.mem_cons_of_mem _ hother, pos, ht⟩

theorem utf8ByteSize_eq (line : String) : line.utf8ByteSize = byteSize line.toList := by
  rw [← utf8ByteSize_ofList, String.ofList_toList]

/-- The tokens of a line are those of its whole chunks and of the last one. -/
theorem scan_eq {line : String} (hne : line ≠ "") :
    ∃ front last, scan line = ofChunks 0 front ++ ofChunk (byteSize front.flatten) last ∧
      front.flatten ++ last = line.toList ∧ (∀ chunk ∈ front, Whole chunk) ∧
      (State.atEnd line.toList).Shapes last := by
  have hcs : line.toList ≠ [] := fun hnil => hne (String.toList_inj.mp hnil)
  obtain ⟨front, last, hchunks, hfront, hlast⟩ := shapes_chunks hcs
  refine ⟨front, last, ?_, ?_, hfront, hlast⟩
  · rw [scan, hchunks, ofChunks_append, ofChunks, ofChunks, List.append_nil, Nat.zero_add]
  · rw [← flatten_chunks line.toList, hchunks, List.flatten_concat]

/-- A line that ends in an open quoted text ends in that text as a token. -/
theorem scan_of_open {line : String} (h : (State.atEnd line.toList).isOpen = true) :
    ∃ front last, scan line = ofChunks 0 front ++ [last] ∧ (∀ chunk ∈ front, Whole chunk) ∧
      Unclosed last.text.toList ∧ last.stop = line.utf8ByteSize := by
  have hne : line ≠ "" := by
    rintro rfl
    cases h
  obtain ⟨front, chunk, hscan, hline, hfront, hlast⟩ := scan_eq hne
  match hs : State.atEnd line.toList with
  | .quoted (some q) =>
    rw [hs] at hlast
    obtain ⟨body, rfl, hquote, hbody⟩ := hlast
    refine ⟨front, ofChars (byteSize front.flatten) (q :: body), ?_, hfront, ?_, ?_⟩
    · rw [hscan, ofChunk_of_isQuote hquote]
    · exact ⟨q, body, String.toList_ofList, hquote, hbody⟩
    · rw [utf8ByteSize_eq, ← hline, byteSize_append]
      rfl
  | .quoted none | .idle | .word | .operator _ | .number _ =>
    rw [hs] at h
    cases h

theorem scan_of_closed {line : String} (h : (State.atEnd line.toList).isOpen = false)
    (ht : t ∈ scan line) : ∃ chunk pos, Whole chunk ∧ t ∈ ofChunk pos chunk := by
  have hne : line ≠ "" := by
    rintro rfl
    cases ht
  obtain ⟨front, last, hscan, -, hfront, hlast⟩ := scan_eq hne
  rw [hscan] at ht
  rcases List.mem_append.mp ht with ht | ht
  · obtain ⟨chunk, hchunk, pos, ht⟩ := mem_ofChunks ht
    exact ⟨chunk, pos, hfront chunk hchunk, ht⟩
  · exact ⟨last, _, ⟨_, hlast, h⟩, ht⟩

/-- A token of a line is in quotes; or it is the last one, begins with a quote that does not come
again and ends where the line ends; or it is bare. -/
theorem token_shape {line : String} {t : Token} (ht : t ∈ scan line) :
    Quoted t.text.toList ∨
    Unclosed t.text.toList ∧ (scan line).getLast? = some t ∧ t.stop = line.utf8ByteSize ∨
    Bare t.text.toList := by
  cases hopen : (State.atEnd line.toList).isOpen with
  | false =>
    obtain ⟨chunk, pos, hwhole, ht⟩ := scan_of_closed hopen ht
    exact (quoted_or_bare hwhole ht).imp_right .inr
  | true =>
    obtain ⟨front, last, hscan, hfront, hunclosed, hstop⟩ := scan_of_open hopen
    rw [hscan] at ht ⊢
    rcases List.mem_append.mp ht with ht | ht
    · obtain ⟨chunk, hchunk, pos, ht⟩ := mem_ofChunks ht
      exact (quoted_or_bare (hfront chunk hchunk) ht).imp_right .inr
    · obtain rfl := List.mem_singleton.mp ht
      exact .inr (.inl ⟨hunclosed, List.getLast?_concat, hstop⟩)

theorem token_shape_unclosed :
    ⟨"'b >= 2", 9, 16⟩ ∈ scan "1...3>=a 'b >= 2" ∧
    (Quoted "'b >= 2".toList ∨
      Unclosed "'b >= 2".toList ∧
        (scan "1...3>=a 'b >= 2").getLast? = some ⟨"'b >= 2", 9, 16⟩ ∧
        16 = "1...3>=a 'b >= 2".utf8ByteSize ∨
      Bare "'b >= 2".toList) :=
  ⟨by decide, token_shape (t := ⟨"'b >= 2", 9, 16⟩) (by decide)⟩

end Rill.Token
