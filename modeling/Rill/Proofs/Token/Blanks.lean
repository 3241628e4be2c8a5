import Rill.Proofs.Token.Shapes

/-!
# Cutting a line at a blank

A blank goes on with no chunk but an open quoted text, and is a chunk by itself (`extend?_blank`,
`ofFirst_blank`). So what the machine knows at a blank outside quotes is forgotten behind it, and
the chunks of a line are those before and those behind the blank (`chunks_append_blank`). The tokens
of a chunk only move with it (`ofChunks_shift`), so that the tokens of the line are those before and
those behind the blank as well. In an open quoted text they are not (`scan_append_of_open`).
-/

namespace Rill.Token

variable {s : State} {w : Char} {cs ds backwards chunk : List Char} {start pos : Nat}

/-- The token, so many bytes further on. -/
def shift (n : Nat) (t : Token) : Token := { t with start := t.start + n, stop := t.stop + n }

/-- No quoted text of the line is left open. -/
def Closed (line : String) : Prop := (State.atEnd line.toList).isOpen = false

/-! ## The machine at a blank -/

theorem isTerminator_blank (hw : Text.isBlank w = true) : isTerminator w = true := by
  rw [isTerminator, hw, Bool.true_or]

theorem isQuote_blank (hw : Text.isBlank w = true) : isQuote w = false := by
  refine Bool.eq_false_iff.mpr fun hquote => ?_
  simp only [isQuote, Bool.or_eq_true, beq_iff_eq] at hquote
  obtain (rfl | rfl) | rfl := hquote <;> cases hw

theorem isDigit_blank (hw : Text.isBlank w = true) : isDigit w = false := by
  refine Bool.eq_false_iff.mpr fun hdigit => ?_
  have hterm := not_isTerminator_of_isDigit hdigit
  rw [isTerminator_blank hw] at hterm
  cases hterm

theorem isOperatorChar_blank (hw : Text.isBlank w = true) : isOperatorChar w = false := by
  refine Bool.eq_false_iff.mpr fun hoperator => ?_
  exact Bool.eq_false_iff.mp (operator_class hoperator).2.1 hw

theorem isPair_blank (hw : Text.isBlank w = true) (first : Char) : isPair first w = false := by
  refine Bool.eq_false_iff.mpr fun hpair => ?_
  exact Bool.eq_false_iff.mp ((pair_class hpair).1 w (by simp)).2.1 hw

/-- A blank goes on with no chunk but an open quoted text. -/
theorem extend?_blank (h : s.isOpen = false) (hw : Text.isBlank w = true) : s.extend? w = none := by
  have hx : (w == 'x') = false := beq_false_of_ne (by rintro rfl; cases hw)
  have hpoint : (w == '.') = false := beq_false_of_ne (by rintro rfl; cases hw)
  unfold State.extend?
  split <;> simp [isTerminator_blank, isDigit_blank, isPair_blank, isHexDigit_of_isBlank, *]
  cases h

/-- A blank is a chunk by itself. -/
theorem ofFirst_blank (hw : Text.isBlank w = true) : State.ofFirst w = .idle := by
  simp [State.ofFirst, isQuote_blank hw, isOperatorChar_blank hw, isDigit_blank hw,
    isTerminator_blank hw]

theorem chunksAfter_idle : chunksAfter .idle backwards cs = backwards.reverse :: chunks cs := by
  cases cs with
  | nil => rfl
  | cons c cs => rfl

theorem chunksAfter_append_blank (h : (cs.foldl State.next s).isOpen = false)
    (hw : Text.isBlank w = true) :
    chunksAfter s backwards (cs ++ w :: ds) = chunksAfter s backwards cs ++ [w] :: chunks ds := by
  induction cs generalizing s backwards with
  | nil =>
    have hs : s.extend? w = none := extend?_blank h hw
    simp only [List.nil_append, chunksAfter, hs, ofFirst_blank hw, chunksAfter_idle,
      List.reverse_singleton, List.singleton_append]
  | cons c cs ih =>
    rw [List.cons_append, chunksAfter, chunksAfter]
    cases hs : s.extend? c with
    | some next =>
      rw [List.foldl_cons, State.next_of_some hs] at h
      exact ih h
    | none =>
      rw [List.foldl_cons, State.next_of_none hs] at h
      exact congrArg (backwards.reverse :: ·) (ih h)

/-- The chunks before a blank outside quotes, the blank, and the chunks behind it. -/
theorem chunks_append_blank (h : (State.atEnd cs).isOpen = false) (hw : Text.isBlank w = true) :
    chunks (cs ++ w :: ds) = chunks cs ++ [w] :: chunks ds := by
  cases cs with
  | nil =>
    show chunksAfter (State.ofFirst w) [w] ds = [w] :: chunks ds
    rw [ofFirst_blank hw]
    exact chunksAfter_idle
  | cons c cs => exact chunksAfter_append_blank h hw

/-! ## Tokens further on -/

theorem ofBackwards_shift (n : Nat) (h : byteSize backwards ≤ pos) :
    ofBackwards backwards (pos + n) = (ofBackwards backwards pos).map (shift n) := by
  unfold ofBackwards
  split
  · rfl
  · simp only [List.map_cons, List.map_nil, shift]
    rw [Nat.sub_add_comm h]

theorem splitRanges_shift (n : Nat) (h : byteSize backwards ≤ pos) :
    splitRanges backwards (pos + n) cs = (splitRanges backwards pos cs).map (shift n) := by
  fun_induction splitRanges backwards pos cs with
  | case1 backwards pos cs ih =>
    have hrange : shift n ⟨"..", pos, pos + 2⟩ = ⟨"..", pos + n, pos + n + 2⟩ := by
      rw [Nat.add_right_comm]
      rfl
    rw [splitRanges, ofBackwards_shift n h, List.map_append, List.map_cons, hrange,
      ← ih (Nat.zero_le _), Nat.add_right_comm pos 2 n]
  | case2 backwards pos c cs hdots ih =>
    rw [splitRanges, Nat.add_right_comm, ih]
    · rw [byteSize_cons]
      omega
    · exact hdots
  | case3 backwards pos => exact ofBackwards_shift n h

theorem ofChunk_shift (n : Nat) :
    ofChunk (start + n) chunk = (ofChunk start chunk).map (shift n) := by
  cases chunk with
  | nil => rfl
  | cons c cs =>
    simp only [ofChunk]
    split
    · rw [List.map_singleton, ofChars, Nat.add_right_comm]
      rfl
    · rw [Nat.add_right_comm]
      exact splitRanges_shift n (Nat.zero_le _)

theorem ofChunks_shift (n : Nat) (chunks : List (List Char)) :
    ofChunks (start + n) chunks = (ofChunks start chunks).map (shift n) := by
  induction chunks generalizing start with
  | nil => rfl
  | cons chunk chunks ih =>
    rw [ofChunks, ofChunks, List.map_append, ofChunk_shift, ← ih, Nat.add_right_comm]

/-! ## Lines -/

/-- Behind a blank outside quotes a line is cut as if it began there. -/
theorem scan_append_of_closed {a : String} (h : Closed a) (hw : Text.isBlank w = true)
    (b : String) : scan (a ++ String.singleton w ++ b) =
      scan a ++ (scan b).map (shift (a ++ String.singleton w).utf8ByteSize) := by
  have hline : (a ++ String.singleton w ++ b).toList = a.toList ++ w :: b.toList := by simp
  have hsize : (a ++ String.singleton w).utf8ByteSize = byteSize a.toList + byteSize [w] := by
    rw [utf8ByteSize_eq, ← byteSize_append]
    simp
  rw [scan, hline, chunks_append_blank h hw, ofChunks_append, ofChunks,
    ofChunk_blank hw (isQuote_blank hw), List.nil_append, flatten_chunks, Nat.add_assoc, hsize,
    ofChunks_shift]
  rfl

/-- A blank does not close an open quoted text. -/
theorem isOpen_next_blank (h : s.Shapes chunk) (hopen : s.isOpen = true)
    (hw : Text.isBlank w = true) : (s.next w).isOpen = true := by
  match s with
  | .quoted (some q) =>
    obtain ⟨-, -, hquote, -⟩ := h
    have hne : (w == q) = false := by
      refine beq_false_of_ne ?_
      rintro rfl
      rw [isQuote_blank hw] at hquote
      cases hquote
    have hextend : (State.quoted (some q)).extend? w = some (.quoted (some q)) := by
      simp only [State.extend?, hne, Bool.false_eq_true, ↓reduceIte]
    rw [State.next_of_some hextend]
    exact hopen
  | .quoted none | .idle | .word | .operator _ | .number _ => cases hopen

/-- A blank behind an open quoted text belongs to its token. -/
theorem scan_append_of_open {a : String} (h : ¬ Closed a) (hw : Text.isBlank w = true) :
    scan (a ++ String.singleton w) ≠ scan a := by
  intro heq
  have hopen : (State.atEnd a.toList).isOpen = true := Bool.of_not_eq_false h
  have hne : a.toList ≠ [] := by
    intro hnil
    rw [hnil] at hopen
    cases hopen
  obtain ⟨_, chunk, -, -, hshapes⟩ := shapes_chunks hne
  have hafter : (State.atEnd (a ++ String.singleton w).toList).isOpen = true := by
    rw [State.atEnd, String.toList_append, String.toList_singleton, List.foldl_append]
    exact isOpen_next_blank hshapes hopen hw
  obtain ⟨front, last, hscan, -, -, hstop⟩ := scan_of_open hopen
  obtain ⟨front', last', hscan', -, -, hstop'⟩ := scan_of_open hafter
  rw [hscan, hscan'] at heq
  obtain ⟨-, hlast⟩ := List.append_inj' heq rfl
  obtain rfl : last' = last := List.singleton_inj.mp hlast
  have hsize : 0 < w.utf8Size := w.utf8Size_pos
  rw [hstop, String.utf8ByteSize_append, String.utf8ByteSize_singleton] at hstop'
  omega

/-- The tokens of a line with a blank somewhere are those of what stands before the blank, and those
of what stands behind it, moved by the bytes up to there. This holds for every blank and whatever
stands behind it exactly if no quoted text is open before. -/
theorem closed_iff_scan_append (a : String) :
    Closed a ↔ ∀ (w : Char) (b : String), Text.isBlank w = true →
      scan (a ++ String.singleton w ++ b) =
        scan a ++ (scan b).map (shift (a ++ String.singleton w).utf8ByteSize) := by
  constructor
  · intro h w b hw
    exact scan_append_of_closed h hw b
  · intro h
    by_contra hopen
    have hscan := h ' ' "" rfl
    rw [String.append_empty] at hscan
    refine scan_append_of_open hopen (w := ' ') rfl ?_
    rw [hscan]
    exact List.append_nil (scan a)

theorem closed_iff_scan_append_wide :
    Closed "'x y'-" ∧ Text.isBlank '\u2003' = true ∧
    scan ("'x y'-" ++ String.singleton '\u2003' ++ "\x60z 1..") =
      [⟨"'x y'", 0, 5⟩, ⟨"-", 5, 6⟩, ⟨"\x60z 1..", 9, 15⟩] := by
  have hclosed : Closed "'x y'-" := by
    rw [Closed]
    decide
  refine ⟨hclosed, rfl, ?_⟩
  rw [(closed_iff_scan_append "'x y'-").mp hclosed '\u2003' "\x60z 1.." rfl]
  decide

end Rill.Token
