import Rill.Line.Parser

/-!
# Reading a line step by step

A step that is known to end, and to leave the line in a known state, can be taken: before other
steps (`Parse.bind_ok`, `Parse.bind_error`), and as the next token of a line (`Parse.all_ok`,
`Parse.all_error`). Of steps that ended each one did (`Parse.bind_inv`). What the last step leaves
is what is left of the whole line (`parse_of_ok`, `parse_of_error`).
-/

namespace Rill

namespace Parse

variable {context : Context} {α β : Type} {m : Parser α} {p q : Parse} {e : Error}

theorem bind_ok {f : α → Parser β} {a : α} (h : m p = .ok a q) : (m >>= f) p = f a q := by
  show EStateM.bind m f p = f a q
  simp only [EStateM.bind, h]

theorem bind_error {f : α → Parser β} (h : m p = .error e q) : (m >>= f) p = .error e q := by
  show EStateM.bind m f p = .error e q
  simp only [EStateM.bind, h]

/-- What follows two steps that end in the same way is the same. -/
theorem bind_eq {n : Parser α} {f : α → Parser β} (h : m p = n q) : (m >>= f) p = (n >>= f) q := by
  show EStateM.bind m f p = EStateM.bind n f q
  simp only [EStateM.bind, h]

theorem lift_ok {r : Except Error α} {a : α} (h : r = .ok a) (p : Parse) : lift r p = .ok a p := by
  rw [h]
  rfl

/-! ## Steps that ended -/

/-- Of two steps that ended the first one did. -/
theorem bind_inv {f : α → Parser β} {b : β} (h : (m >>= f) p = .ok b q) :
    ∃ a r, m p = .ok a r ∧ f a r = .ok b q := by
  cases hm : m p with
  | ok a r =>
    rw [bind_ok hm] at h
    exact ⟨a, r, rfl, h⟩
  | error e r =>
    rw [bind_error hm] at h
    cases h

theorem lift_inv {r : Except Error α} {f : α → Parser β} {b : β}
    (h : (lift r >>= f) p = .ok b q) : ∃ a, r = .ok a ∧ f a p = .ok b q := by
  cases r with
  | ok a => exact ⟨a, rfl, h⟩
  | error e => cases h

theorem ite_inv {c : Prop} [Decidable c] {n : Parser α} {a : α}
    (h : (if c then m else n) p = .ok a q) : c ∧ m p = .ok a q ∨ ¬ c ∧ n p = .ok a q := by
  split at h
  next hc => exact .inl ⟨hc, h⟩
  next hc => exact .inr ⟨hc, h⟩

theorem top_inv {f : Stage → Parser β} {b : β} (h : (top >>= f) p = .ok b q) :
    ∃ s rest, p.stages = s :: rest ∧ f s p = .ok b q := by
  obtain ⟨tokens, _ | ⟨s, rest⟩, pending, taken, slots, env⟩ := p
  · cases h
  · exact ⟨s, rest, rfl, h⟩

theorem popStage_inv {f : Stage → Parser β} {b : β} (h : (popStage >>= f) p = .ok b q) :
    ∃ s rest, p.stages = s :: rest ∧ f s { p with stages := rest } = .ok b q := by
  obtain ⟨tokens, _ | ⟨s, rest⟩, pending, taken, slots, env⟩ := p
  · cases h
  · exact ⟨s, rest, rfl, h⟩

/-! ## Tokens and folding -/

variable {t : String} {rest : List String}

theorem all_ok (h : token context t { p with tokens := rest } = .ok () q) :
    all context (t :: rest) p = all context rest q :=
  (bind_ok rfl).trans (bind_ok h)

theorem all_error (h : token context t { p with tokens := rest } = .error e q) :
    all context (t :: rest) p = .error e q :=
  (bind_ok rfl).trans (bind_error h)

theorem all_inv (h : all context (t :: rest) p = .ok () q) :
    ∃ r, token context t { p with tokens := rest } = .ok () r ∧ all context rest r = .ok () q := by
  obtain ⟨_, _, hset, h⟩ := bind_inv h
  cases hset
  obtain ⟨_, r, hr, h⟩ := bind_inv h
  exact ⟨r, hr, h⟩

/-- What is not to be folded stays. -/
theorem foldWhile_of_head {keep : Pending → Bool} (h : ∀ x ∈ p.pending.head?, keep x = false)
    (n : Nat) : foldWhile context keep n p = .ok () p := by
  obtain ⟨tokens, stages, pending, taken, slots, env⟩ := p
  cases n with
  | zero => rfl
  | succ n =>
    refine (bind_ok rfl).trans ?_
    cases pending with
    | nil => rfl
    | cons x rest =>
      show (if keep x = true then _ else pure () : Parser Unit) _ = _
      rw [h x rfl]
      rfl

/-- What is to be folded is folded first. -/
theorem foldWhile_step {keep : Pending → Bool} {x : Pending} {rest : List Pending}
    (hp : p.pending = x :: rest) (hx : keep x = true) (n : Nat) :
    foldWhile context keep (n + 1) p =
      (fold context >>= fun _ => foldWhile context keep n) p := by
  obtain ⟨tokens, stages, pending, taken, slots, env⟩ := p
  subst hp
  refine (bind_ok rfl).trans ?_
  show (if keep x = true then _ else pure () : Parser Unit) _ = _
  rw [if_pos hx]

/-- Folding goes on where it stopped for want of a count. -/
theorem foldWhile_add (context : Context) (keep : Pending → Bool) (m n : Nat) (p : Parse) :
    foldWhile context keep (m + n) p =
      (foldWhile context keep m >>= fun _ => foldWhile context keep n) p := by
  induction m generalizing p with
  | zero =>
    rw [Nat.zero_add]
    exact (bind_ok rfl).symm
  | succ m ih =>
    have stop (h : ∀ x ∈ p.pending.head?, keep x = false) :
        foldWhile context keep (m + 1 + n) p =
          (foldWhile context keep (m + 1) >>= fun _ => foldWhile context keep n) p := by
      rw [foldWhile_of_head h, bind_ok (foldWhile_of_head h _), foldWhile_of_head h]
    match hp : p.pending with
    | [] => exact stop (by rw [hp]; nofun)
    | x :: rest =>
      by_cases hx : keep x = true
      · rw [Nat.succ_add, foldWhile_step hp hx]
        cases hf : fold context p with
        | ok _ q =>
          rw [bind_ok hf, ih]
          refine (bind_eq ?_).symm
          rw [foldWhile_step hp hx, bind_ok hf]
        | error e q =>
          rw [bind_error hf]
          refine (bind_error ?_).symm
          rw [foldWhile_step hp hx, bind_error hf]
      · refine stop fun y hy => ?_
        rw [hp] at hy
        obtain rfl : x = y := Option.some.inj hy
        exact Bool.eq_false_iff.mpr hx

end Parse

section

variable {context : Context} {tokens : List String} {w : World} {q : Parse}

theorem parse_of_ok {r : Factory × Mode}
    (h : (do Parse.all context tokens; Parse.finish context : Parser (Factory × Mode))
      (Parse.start w tokens) = .ok r q) :
    parse context tokens w = (.ok r, { w with slots := q.slots, env := q.env }) := by
  rw [parse, EStateM.run, h]

theorem parse_of_error {e : Error}
    (h : (do Parse.all context tokens; Parse.finish context : Parser (Factory × Mode))
      (Parse.start w tokens) = .error e q) :
    parse context tokens w =
      (.error e, { w with slots := q.taken.foldl Slots.release q.slots, env := q.env }) := by
  rw [parse, EStateM.run, h]

end

end Rill
