import Rill.Printer

/-!
# Printing one by one

Printing asks before each value but the first, and goes on for as many answers as are blank in a
row. What it prints until then are the first values, which printing everything prints as well before
it goes on (`printAll_eq`). So the first answer that is not blank only cuts off what printing
everything does, or lets it go on if it is `:` (`seen_asks`).
-/

namespace Rill.Printer

variable {c : Calls} {fuel : Nat} {s : Stream} {answers : List String}

/-! ## The first values -/

/-- Prints so many values, or fewer if the stream ends or fails before; what is left of it waits. -/
def printFirst (c : Calls) : Nat → Printed → Stream → Run (Printed × Progress)
  | 0, p, s => return (p, .asks s)
  | count + 1, p, s => do
    let (item, s) ← c.pull s
    match item with
    | none => return (p, .ended .done)
    | some (.error e) => return fail p e
    | some (.ok v) => printFirst c count (line p v) s

/-- Goes on with all that waits. -/
def printRest (c : Calls) (fuel : Nat) : Printed × Progress → Run (Printed × Progress)
  | (p, .asks s) => printAll c fuel p s
  | r => return r

/-- Printing everything prints the first values, and then the others. -/
theorem printAll_eq (c : Calls) (count fuel : Nat) (p : Printed) (s : Stream) :
    printAll c (fuel + count) p s = printFirst c count p s >>= printRest c fuel := by
  induction count generalizing p s with
  | zero => rfl
  | succ count ih =>
    rw [← Nat.add_assoc, printAll, printFirst, bind_assoc]
    refine bind_congr fun ⟨item, s₁⟩ => ?_
    match item with
    | none => rfl
    | some (.error e) => cases e <;> rfl
    | some (.ok v) => exact ih (line p v) s₁

/-! ## What is seen -/

/-- What was written, and how printing ended when no more of it is asked for. -/
def cutOff : Printed × Progress → String × String × Except Trouble Ending
  | (p, .ended ending) => (p.out, p.err, .ok ending)
  | (p, .asks _) => (p.out, p.err, .ok .done)
  | (p, .troubled trouble) => (p.out, p.err, .error trouble)

/-- What was written, and how printing ended. -/
def seen (r : Printed × Except Trouble Ending × List String) :
    String × String × Except Trouble Ending :=
  (r.1.out, r.1.err, r.2.1)

/-- How often it was asked is not seen. -/
theorem cutOff_printFirst_asked (c : Calls) (count asked : Nat) (p : Printed) (s : Stream) :
    cutOff <$> printFirst c count { p with asked := asked } s =
      cutOff <$> printFirst c count p s := by
  induction count generalizing p s with
  | zero => rfl
  | succ count ih =>
    rw [printFirst, printFirst, map_bind, map_bind]
    refine bind_congr fun ⟨item, s₁⟩ => ?_
    match item with
    | none => rfl
    | some (.error e) => cases e <;> rfl
    | some (.ok v) => exact ih (line p v) s₁

theorem cutOff_printAll_asked (c : Calls) (fuel asked : Nat) (p : Printed) (s : Stream) :
    cutOff <$> printAll c fuel { p with asked := asked } s = cutOff <$> printAll c fuel p s := by
  induction fuel generalizing p s with
  | zero => rfl
  | succ fuel ih =>
    rw [printAll, printAll, map_bind, map_bind]
    refine bind_congr fun ⟨item, s₁⟩ => ?_
    match item with
    | none => rfl
    | some (.error e) => cases e <;> rfl
    | some (.ok v) => exact ih (line p v) s₁

/-! ## Answers -/

theorem seen_answerAll_ended (c : Calls) (fuel : Nat) (answers : List String) (p : Printed)
    (ending : Ending) :
    seen <$> answerAll c fuel answers p (.ended ending) =
      (pure (p.out, p.err, .ok ending) : Run _) := by
  cases answers <;> rfl

theorem seen_answerAll_fail (c : Calls) (fuel : Nat) (answers : List String) (p : Printed)
    (e : Error) :
    seen <$> answerAll c fuel answers (fail p e).1 (fail p e).2 =
      (pure (cutOff (fail p e)) : Run _) := by
  cases e <;> exact seen_answerAll_ended ..

/-- When everything is printed, no answer is needed. -/
theorem seen_printAll (c : Calls) (fuel goOn : Nat) (answers : List String) (p : Printed)
    (s : Stream) :
    (printAll c fuel p s >>= fun r => seen <$> answerAll c goOn answers r.1 r.2) =
      cutOff <$> printAll c fuel p s := by
  induction fuel generalizing p s with
  | zero => rfl
  | succ fuel ih =>
    rw [printAll, bind_assoc, map_bind]
    refine bind_congr fun ⟨item, s₁⟩ => ?_
    match item with
    | none => exact seen_answerAll_ended ..
    | some (.error e) => exact seen_answerAll_fail ..
    | some (.ok v) => exact ih (line p v) s₁

/-- The answers up to the first that is not blank. -/
def blanks (answers : List String) : Nat :=
  (answers.takeWhile fun a => Text.trimText a == "").length

/-- The first answer that is not blank, without what is blank around it. -/
def cut? (answers : List String) : Option String :=
  (answers.drop (blanks answers)).head?.map Text.trimText

theorem blanks_cons {a : String} (h : Text.trimText a = "") (rest : List String) :
    blanks (a :: rest) = blanks rest + 1 := by
  rw [blanks, List.takeWhile_cons_of_pos (by simpa using h), List.length_cons]
  rfl

theorem blanks_cons_of_ne {a : String} (h : Text.trimText a ≠ "") (rest : List String) :
    blanks (a :: rest) = 0 := by
  rw [blanks, List.takeWhile_cons_of_neg (by simpa using h), List.length_nil]

theorem cut?_cons {a : String} (h : Text.trimText a = "") (rest : List String) :
    cut? (a :: rest) = cut? rest := by
  rw [cut?, blanks_cons h, List.drop_succ_cons, cut?]

theorem cut?_cons_of_ne {a : String} (h : Text.trimText a ≠ "") (rest : List String) :
    cut? (a :: rest) = some (Text.trimText a) := by
  rw [cut?, blanks_cons_of_ne h, List.drop_zero, List.head?_cons, Option.map_some]

/-- What is printed one by one: so many values, or all if the first answer that is not blank says
so. -/
def printUntil (c : Calls) (fuel : Nat) (answers : List String) (count : Nat) (p : Printed)
    (s : Stream) : Run (Printed × Progress) :=
  if cut? answers = some ":" then printAll c (fuel + count) p s else printFirst c count p s

theorem cutOff_printUntil_asked (c : Calls) (fuel : Nat) (answers : List String)
    (count asked : Nat) (p : Printed) (s : Stream) :
    cutOff <$> printUntil c fuel answers count { p with asked := asked } s =
      cutOff <$> printUntil c fuel answers count p s := by
  unfold printUntil
  split
  · exact cutOff_printAll_asked ..
  · exact cutOff_printFirst_asked ..

theorem printUntil_succ (c : Calls) (fuel : Nat) (answers : List String) (count : Nat) (p : Printed)
    (s : Stream) :
    printUntil c fuel answers (count + 1) p s = (do
      let (item, s) ← c.pull s
      match item with
      | none => return (p, .ended .done)
      | some (.error e) => return fail p e
      | some (.ok v) => printUntil c fuel answers count (line p v) s) := by
  unfold printUntil
  split <;> rfl

/-- One more value is printed before the answers are asked for. -/
theorem seen_printOne (h : ∀ p s, seen <$> answerAll c fuel answers p (.asks s) =
      cutOff <$> printUntil c fuel answers (blanks answers) p s) (p : Printed) (s : Stream) :
    (printOne c p s >>= fun r => seen <$> answerAll c fuel answers r.1 r.2) =
      cutOff <$> printUntil c fuel answers (blanks answers + 1) p s := by
  rw [printUntil_succ, printOne, bind_assoc, map_bind]
  refine bind_congr fun ⟨item, s₁⟩ => ?_
  match item with
  | none => exact seen_answerAll_ended c fuel answers p .done
  | some (.error e) => exact seen_answerAll_fail c fuel answers p e
  | some (.ok v) => exact h (line p v) s₁

/-- As many values are printed as there are blank answers, and then as the next answer says. -/
theorem seen_asks (c : Calls) (fuel : Nat) (answers : List String) (p : Printed) (s : Stream) :
    seen <$> answerAll c fuel answers p (.asks s) =
      cutOff <$> printUntil c fuel answers (blanks answers) p s := by
  induction answers generalizing p s with
  | nil => rfl
  | cons a rest ih =>
    rw [answerAll, map_bind]
    by_cases hblank : Text.trimText a = ""
    · have hanswer : answer c fuel p s (some a) = printOne c { p with asked := p.asked + 1 } s := by
        simp only [answer, Option.map_some, hblank]
      have huntil : printUntil c fuel (a :: rest) = printUntil c fuel rest := by
        funext count p s
        rw [printUntil, cut?_cons hblank]
        rfl
      rw [hanswer, seen_printOne ih, cutOff_printUntil_asked, blanks_cons hblank, huntil]
    · rw [blanks_cons_of_ne hblank, printUntil, cut?_cons_of_ne hblank]
      by_cases hall : Text.trimText a = ":"
      · have hanswer : answer c fuel p s (some a) =
            printAll c fuel { p with asked := p.asked + 1 } s := by
          simp only [answer, Option.map_some, hall]
        rw [hanswer, seen_printAll, cutOff_printAll_asked, hall, if_pos rfl]
        rfl
      · have hanswer : answer c fuel p s (some a) =
            pure ({ p with asked := p.asked + 1 }, .ended .done) := by
          unfold answer
          split
          next h => exact absurd (Option.some.inj h) hblank
          next h => exact absurd (Option.some.inj h) hall
          next => rfl
        rw [hanswer, if_neg (fun h => hall (Option.some.inj h)), pure_bind]
        exact seen_answerAll_ended c fuel rest _ .done

/-- Let `k` answers in a row be blank. Printing one by one shows and does what printing the first
`k + 1` values does, and no more is asked for then; but if the answer after the blank ones is `:`,
it shows and does what printing everything does. What was written to both outputs, how it ended and
what pulling has done are the same. Printing everything prints these first values, and then the
others if the stream has neither ended nor failed. -/
theorem paging_cut (c : Calls) (fuel : Nat) (s : Stream) (answers : List String) :
    let k := blanks answers
    seen <$> print c fuel true s (.pull false) answers =
      cutOff <$> (if cut? answers = some ":" then printAll c (fuel + (k + 1)) {} s
        else printFirst c (k + 1) {} s) ∧
    printAll c (fuel + (k + 1)) {} s = printFirst c (k + 1) {} s >>= printRest c fuel := by
  refine ⟨?_, printAll_eq c (blanks answers + 1) fuel {} s⟩
  rw [print, map_bind]
  exact seen_printOne (seen_asks c fuel answers) {} s

end Rill.Printer
