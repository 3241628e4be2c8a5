import Mathlib.Data.List.DropRight
import Rill.Proofs.Fuel
import Rill.Proofs.Printer.Screen

/-!
# The last lines of a stream

A window holds the last lines of all values so far (`foldl_scroll`), and what was drawn last is what
it held then: as many rows are erased as stand on the screen (`Drawn.value`). So after any number of
values the screen shows the last lines of these, below what was there before (`window_shows`).
-/

namespace Rill

open Screen (below Shown after_redraw after_append)

/-- Pulling `s` again and again gives some values, one after the other. -/
inductive Calls.Yields (c : Calls) : Stream → World → List Value → Stream → World → Prop
  | nil (s : Stream) (w : World) : c.Yields s w [] s w
  | cons {s s₁ s' : Stream} {w w₁ w' : World} {v : Value} {vs : List Value}
    (h : c.pull s w = some ((some (.ok v), s₁), w₁)) (k : c.Yields s₁ w₁ vs s' w') :
    c.Yields s w (v :: vs) s' w'

namespace Printer

variable {c : Calls} {s s' : Stream} {w w' : World} {vs : List Value} {v : Value} {p : Printed}
  {window : Nat} {lines shown : List String} {above : List (List Char)}

/-! ## The loop -/

/-- What has been written, and the lines on the screen, after one more value. -/
def draw (window : Nat) (drawing : Printed × List String) (v : Value) : Printed × List String :=
  let next := (Text.linesText v.render).foldl (scroll window) drawing.2
  ({ drawing.1 with out := drawing.1.out ++ redraw drawing.2.length next }, next)

/-- What has been written, and the lines on the screen, after some values. -/
def drawing (window : Nat) (vs : List Value) : Printed × List String :=
  vs.foldl (draw window) ({}, [])

theorem printWindow_yields (h : c.Yields s w vs s' w') (fuel : Nat) (p : Printed)
    (shown : List String) :
    printWindow c window (fuel + vs.length) p shown s w =
      printWindow c window fuel (vs.foldl (draw window) (p, shown)).1
        (vs.foldl (draw window) (p, shown)).2 s' w' := by
  induction h generalizing p shown with
  | nil s w => rfl
  | @cons s s₁ s' w w₁ w' v vs h k ih =>
    have hstep : printWindow c window (fuel + vs.length + 1) p shown s w =
        printWindow c window (fuel + vs.length) (draw window (p, shown) v).1
          (draw window (p, shown) v).2 s₁ w₁ := by
      show (c.pull s w).bind _ = _
      rw [h]
      rfl
    exact hstep.trans (ih _ _)

theorem out_of_fail (p : Printed) (e : Error) : (fail p e).1.out = p.out := by
  cases e <;> rfl

/-- What has been written stays written. -/
theorem out_prefix_of_printWindow {fuel : Nat} {q : Printed} {progress : Progress}
    (h : printWindow c window fuel p shown s w = some ((q, progress), w')) :
    p.out.toList <+: q.out.toList := by
  induction fuel generalizing p shown s w with
  | zero => cases h
  | succ fuel ih =>
    obtain ⟨⟨item, s₁⟩, w₁, -, hrest⟩ := Run.bind_eq_some.mp h
    match item with
    | none =>
      cases hrest
      exact List.prefix_rfl
    | some (.error e) =>
      obtain ⟨hq, -⟩ := Prod.mk.inj (Option.some.inj hrest)
      have hout : (fail p e).1.out = q.out := congrArg (fun r => r.1.out) hq
      rw [out_of_fail] at hout
      exact hout ▸ List.prefix_rfl
    | some (.ok v) =>
      have hmore := ih hrest
      rw [String.toList_append] at hmore
      exact (List.prefix_append _ _).trans hmore

/-! ## The window -/

/-- One more line, of which the window holds the last ones. -/
theorem scroll_rtake (hwindow : 0 < window) (lines : List String) (line : String) :
    scroll window (lines.rtake window) line = (lines ++ [line]).rtake window := by
  obtain ⟨n, rfl⟩ : ∃ n, window = n + 1 := ⟨window - 1, by omega⟩
  rw [List.rtake_concat_succ, scroll]
  congr 1
  simp only [List.rtake, List.length_drop]
  split
  next hfull =>
    rw [List.drop_drop]
    congr 1
    omega
  next hroom =>
    congr 1
    omega

theorem foldl_scroll (hwindow : 0 < window) (lines more : List String) :
    more.foldl (scroll window) (lines.rtake window) = (lines ++ more).rtake window := by
  induction more generalizing lines with
  | nil => rw [List.foldl_nil, List.append_nil]
  | cons line more ih =>
    rw [List.foldl_cons, scroll_rtake hwindow, ih, List.append_assoc]
    rfl

/-! ## Lines of plain text -/

/-- The control characters, which have no shape. -/
def isControl (c : Char) : Bool := c.toNat < 0x20 || (0x7f ≤ c.toNat && c.toNat ≤ 0x9f)

theorem mem_endedLine {backwards : List Char} {ch : Char}
    (h : ch ∈ Text.endedLine backwards) : ch ∈ backwards := by
  unfold Text.endedLine at h
  split at h
  · exact List.mem_cons_of_mem _ (List.mem_reverse.mp h)
  · exact List.mem_reverse.mp h

/-- The characters of a line are characters of the text, and no line feeds. -/
theorem mem_linesAfter {backwards cs line : List Char} {ch : Char}
    (hback : '\n' ∉ backwards) (h : line ∈ Text.linesAfter backwards cs) (hch : ch ∈ line) :
    (ch ∈ backwards ∨ ch ∈ cs) ∧ ch ≠ '\n' := by
  fun_induction Text.linesAfter backwards cs with
  | case1 backwards hempty => cases h
  | case2 backwards hempty =>
    rw [List.mem_singleton.mp h] at hch
    have hmem := List.mem_reverse.mp hch
    exact ⟨.inl hmem, ne_of_mem_of_not_mem hmem hback⟩
  | case3 backwards cs ih =>
    rcases List.mem_cons.mp h with rfl | h
    · have hmem := mem_endedLine hch
      exact ⟨.inl hmem, ne_of_mem_of_not_mem hmem hback⟩
    · obtain ⟨hmem, hne⟩ := ih List.not_mem_nil h
      exact ⟨.inr (List.mem_cons_of_mem _ (hmem.resolve_left List.not_mem_nil)), hne⟩
  | case4 backwards d cs hd ih =>
    have hback' : '\n' ∉ d :: backwards := by
      intro hmem
      rcases List.mem_cons.mp hmem with rfl | hmem
      · exact hd rfl
      · exact hback hmem
    obtain ⟨hmem, hne⟩ := ih hback' h
    refine ⟨?_, hne⟩
    rcases hmem with hmem | hmem
    · rcases List.mem_cons.mp hmem with rfl | hmem
      · exact .inr List.mem_cons_self
      · exact .inl hmem
    · exact .inr (List.mem_cons_of_mem _ hmem)

/-- The lines of a text whose only control characters are line feeds have none. -/
theorem shown_linesText {text line : String}
    (h : ∀ ch ∈ text.toList, isControl ch = true → ch = '\n') (hline : line ∈ Text.linesText text) :
    ∀ ch ∈ line.toList, Shown ch := by
  obtain ⟨cs, hcs, rfl⟩ := List.mem_map.mp hline
  intro ch hch
  rw [String.toList_ofList] at hch
  obtain ⟨hmem, hne⟩ := mem_linesAfter List.not_mem_nil hcs hch
  refine ⟨hne, ?_⟩
  rintro rfl
  exact absurd (h _ (hmem.resolve_left List.not_mem_nil) rfl) (by decide)

/-! ## The screen -/

/-- The window has the last of some lines, and the screen shows it below what was there before. -/
structure Drawn (window : Nat) (above : List (List Char)) (lines : List String)
    (drawing : Printed × List String) : Prop where
  plain : ∀ line ∈ lines, ∀ ch ∈ line.toList, Shown ch
  window_eq : drawing.2 = lines.rtake window
  screen : (below above).after drawing.1.out = below (above ++ drawing.2.map String.toList)

theorem Drawn.start (window : Nat) (above : List (List Char)) :
    Drawn window above [] ({}, []) where
  plain := nofun
  window_eq := (List.rtake_nil window).symm
  screen := by
    rw [List.map_nil, List.append_nil]
    rfl

/-- One more value is drawn. -/
theorem Drawn.value {drawing : Printed × List String} (h : Drawn window above lines drawing)
    (hwindow : 0 < window) (hv : ∀ ch ∈ v.render.toList, isControl ch = true → ch = '\n') :
    Drawn window above (lines ++ Text.linesText v.render) (draw window drawing v) := by
  have hplain : ∀ line ∈ lines ++ Text.linesText v.render, ∀ ch ∈ line.toList, Shown ch :=
    List.forall_mem_append.mpr ⟨h.plain, fun line hline => shown_linesText hv hline⟩
  have hnext : (draw window drawing v).2 = (lines ++ Text.linesText v.render).rtake window := by
    rw [← foldl_scroll hwindow, ← h.window_eq]
    rfl
  have hshown : ∀ line ∈ (draw window drawing v).2, ∀ ch ∈ line.toList, Shown ch := by
    intro line hline
    rw [hnext] at hline
    exact hplain line (List.mem_of_mem_drop hline)
  refine ⟨hplain, hnext, ?_⟩
  have hout : (draw window drawing v).1.out =
      drawing.1.out ++ redraw drawing.2.length (draw window drawing v).2 := rfl
  rw [hout, after_append, h.screen, after_redraw hshown]

theorem Drawn.values {drawing : Printed × List String} (h : Drawn window above lines drawing)
    (hwindow : 0 < window)
    (hvs : ∀ v ∈ vs, ∀ ch ∈ v.render.toList, isControl ch = true → ch = '\n') :
    Drawn window above (lines ++ vs.flatMap fun v => Text.linesText v.render)
      (vs.foldl (draw window) drawing) := by
  induction vs generalizing lines drawing with
  | nil => rwa [List.flatMap_nil, List.append_nil]
  | cons v vs ih =>
    obtain ⟨hv, hvs⟩ := List.forall_mem_cons.mp hvs
    rw [List.flatMap_cons, ← List.append_assoc]
    exact ih (h.value hwindow hv) hvs

/-- When some values have been pulled one after the other, printing goes on from what is written and
drawn then. The screen shows their last lines, in order, below what was there before: as many as the
window is to hold, which is at least one and at most `Mode.maxWindow`, or all of them if there are
fewer. Nothing else stands below, and the cursor is at the start of the next row. -/
theorem window_shows (n : Nat) (paging : Bool) (above : List (List Char))
    (hyields : c.Yields s w vs s' w')
    (hplain : ∀ v ∈ vs, ∀ ch ∈ v.render.toList, isControl ch = true → ch = '\n') :
    let window := max 1 (min n Mode.maxWindow)
    let drawn := drawing window vs
    let lines := vs.flatMap fun v => Text.linesText v.render
    (∀ fuel, start c (fuel + vs.length) paging s (.window n) w =
      printWindow c window fuel drawn.1 drawn.2 s' w') ∧
    (∀ fuel q progress w'', start c (fuel + vs.length) paging s (.window n) w =
      some ((q, progress), w'') → drawn.1.out.toList <+: q.out.toList) ∧
    (below above).after drawn.1.out =
      below (above ++ (lines.rtake (min lines.length window)).map String.toList) := by
  intro window drawn lines
  have hloop : ∀ fuel, start c (fuel + vs.length) paging s (.window n) w =
      printWindow c window fuel drawn.1 drawn.2 s' w' :=
    fun fuel => printWindow_yields hyields fuel {} []
  have hwindow : 0 < window := Nat.le_max_left 1 _
  have hdrawn : Drawn window above lines drawn := (Drawn.start window above).values hwindow hplain
  refine ⟨hloop, fun fuel q progress w'' hrun => ?_, ?_⟩
  · rw [hloop] at hrun
    exact out_prefix_of_printWindow hrun
  · have hlast : lines.rtake (min lines.length window) = lines.rtake window := by
      simp only [List.rtake]
      congr 1
      omega
    rw [hdrawn.screen, hdrawn.window_eq, hlast]

theorem window_shows_three :
    let w := World.ofEnvironment .empty
    let vs := [Value.string "a\nb", .string "", .string "c\n\nd"]
    let drawn := drawing 3 vs
    (Eval.calls {} 1).Yields (.items (vs.map .ok)) w vs (.items []) w ∧
    (∀ v ∈ vs, ∀ ch ∈ v.render.toList, isControl ch = true → ch = '\n') ∧
    (∀ fuel, start (Eval.calls {} 1) (fuel + 3) true (.items (vs.map .ok)) (.window 3) w =
      printWindow (Eval.calls {} 1) 3 fuel drawn.1 drawn.2 (.items []) w) ∧
    (∀ fuel q progress w'', start (Eval.calls {} 1) (fuel + 3) true (.items (vs.map .ok))
      (.window 3) w = some ((q, progress), w'') → drawn.1.out.toList <+: q.out.toList) ∧
    (below [['$', ' ', 'x']]).after drawn.1.out =
      below [['$', ' ', 'x'], ['c'], [], ['d']] := by
  intro w vs drawn
  have hyields : (Eval.calls {} 1).Yields (.items (vs.map .ok)) w vs (.items []) w :=
    .cons rfl (.cons rfl (.cons rfl (.nil _ _)))
  have hchecked : (vs.all fun v => v.render.toList.all fun ch =>
      isControl ch = true → ch = '\n') = true := by decide
  have hplain : ∀ v ∈ vs, ∀ ch ∈ v.render.toList, isControl ch = true → ch = '\n' := by
    simpa only [List.all_eq_true, decide_eq_true_eq] using hchecked
  exact ⟨hyields, hplain, window_shows 3 true [['$', ' ', 'x']] hyields hplain⟩

end Printer

end Rill
