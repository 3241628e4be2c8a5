import Rill.Token

/-!
# Cutting a line

Where a chunk ends depends on the characters of the chunk and on the one after it alone
(`Token.chunks_append`), so that a line is cut chunk by chunk. A chunk is one token if it is quoted
or has neither blanks nor points in it (`Token.Solid`, `Token.text_ofChunks`).
-/

namespace Rill.Token

variable {s : State} {c : Char} {cs rest backwards chunk : List Char} {start pos : Nat}

/-- The state after a chunk, if all of its characters belong to it. -/
def State.after? : List Char → Option State
  | [] => none
  | c :: cs => cs.foldlM State.extend? (State.ofFirst c)

/-- The next character, if there is one, begins another chunk. -/
def State.Stops (s : State) (rest : List Char) : Prop := ∀ c ∈ rest.head?, s.extend? c = none

theorem chunksAfter_append {s' : State} (h : cs.foldlM State.extend? s = some s')
    (hr : s'.Stops rest) :
    chunksAfter s backwards (cs ++ rest) = (backwards.reverse ++ cs) :: chunks rest := by
  induction cs generalizing s backwards with
  | nil =>
    obtain rfl : s = s' := Option.some.inj h
    rw [List.nil_append, List.append_nil]
    cases rest with
    | nil => rfl
    | cons c rest =>
      rw [chunksAfter, hr c rfl]
      rfl
  | cons c cs ih =>
    rw [List.foldlM_cons] at h
    cases hs : s.extend? c with
    | none =>
      rw [hs] at h
      cases h
    | some next =>
      rw [hs] at h
      rw [List.cons_append, chunksAfter, hs]
      show chunksAfter next (c :: backwards) (cs ++ rest) = _
      rw [ih h, List.reverse_cons, List.append_assoc]
      rfl

/-- A chunk is cut off where the next character begins another. -/
theorem chunks_append (h : State.after? chunk = some s) (hr : s.Stops rest) :
    chunks (chunk ++ rest) = chunk :: chunks rest := by
  cases chunk with
  | nil => cases h
  | cons c cs => exact chunksAfter_append h hr

/-! ## States that stop -/

/-- The character ends any word and any number, and is one chunk. -/
def isMark (c : Char) : Bool :=
  ['(', ')', '\x7b', '\x7d', '[', ']', ';', ':', ','].contains c

/-- A mark follows, or nothing. -/
def Parted (rest : List Char) : Prop := ∀ c ∈ rest.head?, isMark c = true

theorem parted_nil : Parted [] := by
  intro c hc
  cases hc

theorem parted_cons {c : Char} (h : isMark c = true) (rest : List Char) : Parted (c :: rest) := by
  intro d hd
  obtain rfl := Option.some.inj hd
  exact h

theorem eq_of_isMark (h : isMark c = true) :
    c = '(' ∨ c = ')' ∨ c = '\x7b' ∨ c = '\x7d' ∨ c = '[' ∨ c = ']' ∨ c = ';' ∨ c = ':' ∨
      c = ',' := by
  simpa [isMark] using h

theorem after?_mark (h : isMark c = true) : State.after? [c] = some .idle := by
  rcases eq_of_isMark h with rfl | rfl | rfl | rfl | rfl | rfl | rfl | rfl | rfl <;> rfl

theorem stops_idle (rest : List Char) : State.idle.Stops rest := fun _ _ => rfl

theorem stops_quoted (rest : List Char) : (State.quoted none).Stops rest := fun _ _ => rfl

/-- No mark goes on with a word. -/
theorem stops_word (h : Parted rest) : State.word.Stops rest := by
  intro c hc
  rcases eq_of_isMark (h c hc) with rfl | rfl | rfl | rfl | rfl | rfl | rfl | rfl | rfl <;> rfl

/-- No mark goes on with a number. -/
theorem stops_number (h : Parted rest) (base : Base) :
    (State.number base).Stops rest := by
  intro c hc
  rcases eq_of_isMark (h c hc) with rfl | rfl | rfl | rfl | rfl | rfl | rfl | rfl | rfl <;>
    cases base <;> rfl

/-! ## Chunks that are tokens -/

/-- A chunk that is one token. -/
def Solid (chunk : List Char) : Prop :=
  (∃ c cs, chunk = c :: cs ∧ isQuote c = true) ∨
  chunk ≠ [] ∧ ∀ c ∈ chunk, isQuote c = false ∧ Text.isBlank c = false ∧ c ≠ '.'

theorem solid_of_all {chunk : List Char} (hne : chunk ≠ [])
    (h : (chunk.all fun c => !isQuote c && !Text.isBlank c && c != '.') = true) : Solid chunk := by
  refine .inr ⟨hne, fun c hc => ?_⟩
  have hall := List.all_eq_true.mp h c hc
  simp only [Bool.and_eq_true, Bool.not_eq_true', bne_iff_ne] at hall
  exact ⟨hall.1.1, hall.1.2, hall.2⟩

theorem splitRanges_of_solid (h : ∀ c ∈ cs, c ≠ '.') :
    splitRanges backwards pos cs = ofBackwards (cs.reverse ++ backwards) (pos + byteSize cs) := by
  induction cs generalizing backwards pos with
  | nil => rfl
  | cons c cs ih =>
    rw [splitRanges, ih fun d hd => h d (List.mem_cons_of_mem _ hd), List.reverse_cons,
      List.append_assoc, Nat.add_assoc]
    · rfl
    · rintro _ rfl
      exact absurd rfl (h '.' List.mem_cons_self)

theorem trimStart_of_solid (h : ∀ c ∈ cs, Text.isBlank c = false) : Text.trimStart cs = cs := by
  cases cs with
  | nil => rfl
  | cons c cs => simp [Text.trimStart, h c List.mem_cons_self]

theorem trimEnd_of_solid (h : ∀ c ∈ cs, Text.isBlank c = false) : Text.trimEnd cs = cs := by
  have hrev : cs.reverse.dropWhile Text.isBlank = cs.reverse :=
    trimStart_of_solid fun c hc => h c (List.mem_reverse.mp hc)
  rw [Text.trimEnd, hrev, List.reverse_reverse]

theorem text_ofChunk (h : Solid chunk) :
    (ofChunk start chunk).map Token.text = [String.ofList chunk] := by
  rcases h with ⟨c, cs, rfl, hq⟩ | ⟨hne, hall⟩
  · simp [ofChunk, hq, ofChars]
  · cases chunk with
    | nil => exact absurd rfl hne
    | cons c cs =>
      have hblank : ∀ d ∈ c :: cs, Text.isBlank d = false := fun d hd => (hall d hd).2.1
      simp only [ofChunk, (hall c List.mem_cons_self).1, Bool.false_eq_true, ↓reduceIte,
        trimStart_of_solid hblank, trimEnd_of_solid hblank]
      rw [splitRanges_of_solid fun d hd => (hall d hd).2.2]
      simp [ofBackwards]

/-- Chunks of which each is one token are the tokens. -/
theorem text_ofChunks {chunks : List (List Char)} (h : ∀ chunk ∈ chunks, Solid chunk) :
    (ofChunks start chunks).map Token.text = chunks.map String.ofList := by
  induction chunks generalizing start with
  | nil => rfl
  | cons chunk chunks ih =>
    rw [ofChunks, List.map_append, text_ofChunk (h chunk List.mem_cons_self),
      ih fun d hd => h d (List.mem_cons_of_mem _ hd)]
    rfl

end Rill.Token
