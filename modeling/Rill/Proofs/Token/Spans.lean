import Rill.Token

/-!
# Where the tokens of a line stand

The tokens of a line lie in it one after the other, and what lies before, between and behind them is
blank (`Token.Laid`). The chunks make up the line (`Token.flatten_chunks`), the tokens of a chunk
lie in the chunk (`Token.laid_ofChunk`), and what lies in neighbouring parts of a line lies in both
together (`Token.Laid.append`).

So nothing of a line is lost but blanks: each token is the slice of the line that its span says, the
spans begin and end between characters and never overlap, and a character that no span covers is
blank (`Token.scan_lossless`).
-/

namespace Rill.Token

variable {pos : Nat} {cs ds gap backwards : List Char} {tokens others : List Token} {t : Token}

/-! ## Bytes -/

@[simp]
theorem byteSize_nil : byteSize [] = 0 := rfl

@[simp]
theorem byteSize_cons (c : Char) (cs : List Char) :
    byteSize (c :: cs) = c.utf8Size + byteSize cs := rfl

@[simp]
theorem byteSize_append (cs ds : List Char) :
    byteSize (cs ++ ds) = byteSize cs + byteSize ds := by
  induction cs with
  | nil => simp
  | cons c cs ih => simp [ih, Nat.add_assoc]

@[simp]
theorem byteSize_reverse (cs : List Char) : byteSize cs.reverse = byteSize cs := by
  induction cs with
  | nil => rfl
  | cons c cs ih => simp [ih, Nat.add_comm]

theorem byteSize_pos (h : cs ≠ []) : 0 < byteSize cs := by
  cases cs with
  | nil => exact absurd rfl h
  | cons c cs =>
    have hc : 0 < c.utf8Size := c.utf8Size_pos
    rw [byteSize_cons]
    omega

/-- The number of bytes is that of the text. -/
theorem utf8ByteSize_ofList (cs : List Char) : (String.ofList cs).utf8ByteSize = byteSize cs := by
  induction cs with
  | nil => rfl
  | cons c cs ih =>
    have happend : String.ofList (c :: cs) = String.singleton c ++ String.ofList cs := by
      simp
    rw [happend, String.utf8ByteSize_append, ih, String.utf8ByteSize_singleton, byteSize_cons]

/-- A character of two neighbouring parts stands in the first or in the second. -/
theorem append_eq_middle {xs ys before after : List Char} {c : Char}
    (h : xs ++ ys = before ++ c :: after) :
    (∃ more, xs = before ++ c :: more) ∨
      ∃ more, before = xs ++ more ∧ ys = more ++ c :: after := by
  obtain ⟨more, hbefore, hys⟩ | ⟨more, hxs, hafter⟩ := List.append_eq_append_iff.mp h
  · exact .inr ⟨more, hbefore, hys⟩
  · cases more with
    | nil =>
      refine .inr ⟨[], ?_, hafter.symm⟩
      rw [hxs, List.append_nil, List.append_nil]
    | cons d more =>
      obtain ⟨rfl, -⟩ := List.cons.inj hafter
      exact .inl ⟨more, hxs⟩

/-! ## Tokens one after the other -/

/-- The tokens lie one after the other in the characters, which begin at byte `pos` of the line.
What lies before, between and behind them is blank. -/
inductive Laid : Nat → List Char → List Token → Prop
  | blank {pos : Nat} {cs : List Char} (h : ∀ c ∈ cs, Text.isBlank c = true) : Laid pos cs []
  | token {pos : Nat} {gap cs rest : List Char} {tokens : List Token}
    (h : ∀ c ∈ gap, Text.isBlank c = true) (hne : cs ≠ [])
    (k : Laid (pos + byteSize gap + byteSize cs) rest tokens) :
    Laid pos (gap ++ (cs ++ rest)) (ofChars (pos + byteSize gap) cs :: tokens)

namespace Laid

/-- Blanks may stand in front. -/
theorem after_blanks (hgap : ∀ c ∈ gap, Text.isBlank c = true)
    (h : Laid (pos + byteSize gap) cs tokens) : Laid pos (gap ++ cs) tokens := by
  have both {more : List Char} (hmore : ∀ c ∈ more, Text.isBlank c = true) :
      ∀ c ∈ gap ++ more, Text.isBlank c = true :=
    fun c hc => (List.mem_append.mp hc).elim (hgap c) (hmore c)
  cases h with
  | blank h => exact .blank (both h)
  | @token _ more cs rest tokens hmore hne k =>
    have hsize : pos + byteSize gap + byteSize more = pos + byteSize (gap ++ more) := by
      rw [byteSize_append]
      omega
    rw [hsize] at k ⊢
    rw [← List.append_assoc]
    exact .token (both hmore) hne k

/-- What lies in two neighbouring parts lies in both together. -/
theorem append (h : Laid pos cs tokens) (k : Laid (pos + byteSize cs) ds others) :
    Laid pos (cs ++ ds) (tokens ++ others) := by
  induction h with
  | blank h => exact k.after_blanks h
  | @token pos gap cs rest tokens hgap hne _ ih =>
    have hsize : pos + byteSize (gap ++ (cs ++ rest)) =
        pos + byteSize gap + byteSize cs + byteSize rest := by
      simp only [byteSize_append]
      omega
    rw [hsize] at k
    rw [List.append_assoc, List.append_assoc]
    exact .token hgap hne (ih k)

/-- Characters that are a token by themselves. -/
theorem single (hne : cs ≠ []) : Laid pos cs [ofChars pos cs] := by
  have h : Laid pos ([] ++ (cs ++ [])) [ofChars (pos + byteSize []) cs] :=
    .token nofun hne (.blank nofun)
  simpa using h

/-- A token is the slice of the line at its span, which is not empty. -/
theorem slice (h : Laid pos cs tokens) (ht : t ∈ tokens) :
    ∃ before text after, cs = before ++ (text ++ after) ∧ text ≠ [] ∧
      t = ofChars (pos + byteSize before) text := by
  induction h with
  | blank => cases ht
  | @token pos gap cs rest tokens _ hne _ ih =>
    rcases List.mem_cons.mp ht with rfl | ht
    · exact ⟨gap, cs, rest, rfl, hne, rfl⟩
    · obtain ⟨before, text, after, rfl, htext, rfl⟩ := ih ht
      refine ⟨gap ++ (cs ++ before), text, after, by simp, htext, ?_⟩
      congr 1
      simp only [byteSize_append]
      omega

/-- Every token begins where the characters begin, or behind. -/
theorem le_start (h : Laid pos cs tokens) (ht : t ∈ tokens) : pos ≤ t.start := by
  obtain ⟨before, text, after, -, -, rfl⟩ := h.slice ht
  exact Nat.le_add_right ..

/-- No token begins before the one in front of it has ended. -/
theorem pairwise (h : Laid pos cs tokens) : tokens.Pairwise fun t u => t.stop ≤ u.start := by
  induction h with
  | blank => exact .nil
  | token _ _ k ih => exact .cons (fun u hu => k.le_start hu) ih

/-- A character that no token covers is blank. -/
theorem blank_of_uncovered {before after : List Char} {c : Char} (h : Laid pos cs tokens)
    (hcs : cs = before ++ c :: after)
    (hc : ∀ t ∈ tokens, ¬ (t.start ≤ pos + byteSize before ∧ pos + byteSize before < t.stop)) :
    Text.isBlank c = true := by
  -- on the tokens: the character stands in the gap, in the first token, or in what follows it
  induction h generalizing before with
  | blank h => exact h c (by rw [hcs]; simp)
  | @token pos gap text rest tokens hgap _ _ ih =>
    obtain ⟨more, rfl⟩ | ⟨more, rfl, hrest⟩ := append_eq_middle hcs
    · exact hgap c (by simp)
    obtain ⟨behind, rfl⟩ | ⟨last, rfl, hlast⟩ := append_eq_middle hrest
    · have hin := hc _ List.mem_cons_self
      have hsize : 0 < c.utf8Size := c.utf8Size_pos
      simp only [ofChars, byteSize_append, byteSize_cons] at hin
      omega
    · refine ih hlast fun t ht => ?_
      have hout := hc t (List.mem_cons_of_mem _ ht)
      simp only [byteSize_append] at hout
      simpa only [Nat.add_assoc] using hout

end Laid

/-! ## The tokens of a chunk -/

theorem laid_ofBackwards (start : Nat) (backwards : List Char) :
    Laid start backwards.reverse (ofBackwards backwards (start + byteSize backwards)) := by
  cases backwards with
  | nil => exact .blank nofun
  | cons c backwards =>
    have htoken : Laid start (c :: backwards).reverse [ofChars start (c :: backwards).reverse] :=
      Laid.single (by simp)
    have hstart : start + byteSize (c :: backwards) - byteSize (c :: backwards) = start := by omega
    rw [ofChars, byteSize_reverse] at htoken
    rw [ofBackwards, hstart]
    exact htoken

/-- What lies between two `..` is a token, and so is each `..`. -/
theorem laid_splitRanges (start : Nat) (backwards cs : List Char) :
    Laid start (backwards.reverse ++ cs)
      (splitRanges backwards (start + byteSize backwards) cs) := by
  generalize hpos : start + byteSize backwards = pos
  fun_induction splitRanges backwards pos cs generalizing start with
  | case1 backwards pos cs ih =>
    subst hpos
    have hdots : Laid (start + byteSize backwards) ['.', '.']
        [⟨"..", start + byteSize backwards, start + byteSize backwards + 2⟩] :=
      Laid.single (by simp)
    have hrest := ih (start + byteSize backwards + 2) rfl
    have hbehind := (laid_ofBackwards start backwards).append (by
      rw [byteSize_reverse]
      exact hdots.append hrest)
    simpa using hbehind
  | case2 backwards pos c cs _ ih =>
    subst hpos
    simpa using ih start (by rw [byteSize_cons]; omega)
  | case3 backwards pos =>
    subst hpos
    simpa using laid_ofBackwards start backwards

theorem isBlank_of_mem_takeWhile {c : Char} (h : c ∈ cs.takeWhile Text.isBlank) :
    Text.isBlank c = true :=
  List.all_eq_true.mp List.all_takeWhile c h

/-- A chunk is the blanks at its ends and what is between them. -/
theorem trim_append (cs : List Char) :
    Text.trimEnd cs ++ (cs.reverse.takeWhile Text.isBlank).reverse = cs := by
  rw [Text.trimEnd, ← List.reverse_append, List.takeWhile_append_dropWhile, List.reverse_reverse]

theorem laid_trimmed (start : Nat) (kept : List Char) :
    Laid start kept (splitRanges [] start (Text.trimEnd kept)) := by
  have hend : ∀ d ∈ (kept.reverse.takeWhile Text.isBlank).reverse, Text.isBlank d = true :=
    fun d hd => isBlank_of_mem_takeWhile (List.mem_reverse.mp hd)
  have h := (laid_splitRanges start [] (Text.trimEnd kept)).append (.blank hend)
  simpa only [List.reverse_nil, List.nil_append, byteSize_nil, Nat.add_zero, List.append_nil,
    trim_append] using h

theorem laid_ofChunk (start : Nat) (chunk : List Char) :
    Laid start chunk (ofChunk start chunk) := by
  unfold ofChunk
  split
  · exact .blank nofun
  · rename_i c cs
    split
    · exact Laid.single (by simp)
    · have hchunk : (c :: cs).takeWhile Text.isBlank ++ Text.trimStart (c :: cs) = c :: cs :=
        List.takeWhile_append_dropWhile
      have hgap : ∀ d ∈ (c :: cs).takeWhile Text.isBlank, Text.isBlank d = true :=
        fun d hd => isBlank_of_mem_takeWhile hd
      generalize Text.trimStart (c :: cs) = kept at hchunk ⊢
      generalize (c :: cs).takeWhile Text.isBlank = gap at hchunk hgap
      have hstart : byteSize (c :: cs) - byteSize kept = byteSize gap := by
        rw [← hchunk, byteSize_append, Nat.add_sub_cancel]
      show Laid start (c :: cs)
        (splitRanges [] (start + (byteSize (c :: cs) - byteSize kept)) (Text.trimEnd kept))
      rw [hstart, ← hchunk]
      exact .after_blanks hgap (laid_trimmed ..)

/-! ## Lines -/

theorem flatten_chunksAfter (s : State) (backwards cs : List Char) :
    (chunksAfter s backwards cs).flatten = backwards.reverse ++ cs := by
  induction cs generalizing s backwards with
  | nil => simp [chunksAfter]
  | cons c cs ih =>
    unfold chunksAfter
    split
    · simp [ih]
    · simp [ih]

/-- The chunks make up the line. -/
theorem flatten_chunks (cs : List Char) : (chunks cs).flatten = cs := by
  cases cs with
  | nil => rfl
  | cons c cs => exact flatten_chunksAfter ..

theorem laid_ofChunks (start : Nat) (chunks : List (List Char)) :
    Laid start chunks.flatten (ofChunks start chunks) := by
  induction chunks generalizing start with
  | nil => exact .blank nofun
  | cons chunk rest ih => exact (laid_ofChunk start chunk).append (ih _)

/-- The tokens of a line lie in it one after the other. -/
theorem laid_scan (line : String) : Laid 0 line.toList (scan line) := by
  have h := laid_ofChunks 0 (chunks line.toList)
  rwa [flatten_chunks] at h

/-- No token of a line is empty, and each is the part of the line that its span says: the line up to
the span's start, the token and the rest make up the line. The spans are in the order of the line
and do not overlap. A character that stands in no span is blank. -/
theorem scan_lossless (line : String) :
    (∀ t ∈ scan line, t.text ≠ "" ∧ t.start < t.stop ∧ t.stop ≤ line.utf8ByteSize ∧
      ∃ before after : String, line = before ++ t.text ++ after ∧
        t.start = before.utf8ByteSize ∧ t.stop = (before ++ t.text).utf8ByteSize) ∧
    (scan line).Pairwise (fun t u => t.stop ≤ u.start) ∧
    ∀ (before : String) (c : Char) (after : String),
      line = before ++ String.singleton c ++ after →
      (∀ t ∈ scan line, ¬ (t.start ≤ before.utf8ByteSize ∧ before.utf8ByteSize < t.stop)) →
      Text.isBlank c = true := by
  have hlaid := laid_scan line
  refine ⟨fun t ht => ?_, hlaid.pairwise, fun before c after hline hout => ?_⟩
  · obtain ⟨before, text, after, hcs, hne, rfl⟩ := hlaid.slice ht
    have hpos : 0 < byteSize text := byteSize_pos hne
    have hline : line = String.ofList before ++ String.ofList text ++ String.ofList after := by
      rw [← String.toList_inj]
      simpa using hcs
    have hsize : line.utf8ByteSize = byteSize before + byteSize text + byteSize after := by
      rw [hline]
      simp only [String.utf8ByteSize_append, utf8ByteSize_ofList]
    refine ⟨?_, ?_, ?_, String.ofList before, String.ofList after, hline, ?_, ?_⟩
    · intro hempty
      exact hne (by simpa [ofChars] using congrArg String.toList hempty)
    · simp only [ofChars]
      omega
    · simp only [ofChars]
      omega
    · simp [ofChars, utf8ByteSize_ofList]
    · simp [ofChars, utf8ByteSize_ofList]
  · have hsize : before.utf8ByteSize = byteSize before.toList := by
      rw [← utf8ByteSize_ofList, String.ofList_toList]
    have hcs : line.toList = before.toList ++ c :: after.toList := by
      rw [hline]
      simp
    exact hlaid.blank_of_uncovered hcs (by simpa [hsize] using hout)

end Rill.Token
