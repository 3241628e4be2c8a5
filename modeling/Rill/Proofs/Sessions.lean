import Rill.Session
import Rill.Proofs.Line.Tokens
import Rill.Proofs.Stores

/-!
# The slots of a session

A line takes one slot for each `->` that it reads outside records (`Parse.bindings`), and gives all
of them back if it fails. Whatever is pulled in between gives out no slot and takes none back. So
after any lines exactly those handles reach their slots that were bound by the lines that were read,
and a line that fails changes nothing for them (`session_slots`).
-/

namespace Rill

namespace Parse

variable {context : Context} {p q r : Parse} {hs : List Handle}

/-! ## The slots of a line -/

/-- The slot of the `->` that waits on top. -/
def arrow? (p : Parse) : Option Handle :=
  match p.pending with
  | .bind slot :: _ => some slot
  | _ => none

/-- The slots of the `->` that are read outside records, up to the end of the line or its first
error. -/
def bindings (context : Context) : List String → Parse → List Handle
  | [], _ => []
  | t :: rest, p =>
    match token context t { p with tokens := rest } with
    | .ok _ q => (if takesSlot t p then q.arrow?.toList else []) ++ bindings context rest q
    | .error _ _ => []

/-- The line has taken these slots, and the other handles reach what they reached. -/
structure Took (hs : List Handle) (p : Parse) (bound : List Handle) (q : Parse) : Prop where
  taken : q.taken = p.taken ++ bound
  holding : q.slots.Holding (q.taken ++ hs)
  kept : ∀ h ∈ hs, q.slots.find? h = p.slots.find? h

theorem Same.took (h : Same p q) (hold : p.slots.Holding (p.taken ++ hs)) : Took hs p [] q :=
  ⟨h.taken.trans (List.append_nil _).symm, by rw [h.slots, h.taken]; exact hold,
    fun _ _ => by rw [h.slots]⟩

theorem Binds.took (h : Binds p q) (hold : p.slots.Holding (p.taken ++ hs)) :
    Took hs p q.arrow?.toList q := by
  have harrow : q.arrow? = some p.slots.alloc.1 := by
    have hpending := h.pending
    unfold arrow?
    match he : q.pending with
    | [] =>
      rw [he] at hpending
      cases hpending
    | x :: rest =>
      rw [he] at hpending
      cases hpending
      rfl
  rw [harrow]
  refine ⟨h.taken, ?_, fun k hk => ?_⟩
  · rw [h.slots, h.taken, List.append_assoc]
    exact hold.alloc.perm List.perm_middle.symm
  · rw [h.slots]
    exact hold.find?_alloc ((hold.mem k).mp (List.mem_append_right _ hk))

/-- Which tokens are to come does not matter to the slots. -/
theorem Took.of_tokens {rest : List String} {bound : List Handle}
    (h : Took hs { p with tokens := rest } bound q) : Took hs p bound q :=
  ⟨h.taken, h.holding, h.kept⟩

theorem Took.trans {bound more : List Handle} (h : Took hs p bound q) (k : Took hs q more r) :
    Took hs p (bound ++ more) r :=
  ⟨by rw [k.taken, h.taken, List.append_assoc], k.holding,
    fun x hx => (k.kept x hx).trans (h.kept x hx)⟩

/-- How a line is read to its end or to its first error, and what slots it has taken then. -/
theorem all_took (context : Context) (hp : p.Disciplined) (hold : p.slots.Holding (p.taken ++ hs))
    (tokens : List String) :
    (∃ q, all context tokens p = .ok () q ∧ q.Disciplined ∧
      Took hs p (bindings context tokens p) q) ∨
    ∃ e q, all context tokens p = .error e q ∧ Took hs p (bindings context tokens p) q := by
  induction tokens generalizing p with
  | nil => exact .inl ⟨p, rfl, hp, (Same.refl p).took hold⟩
  | cons t rest ih =>
    obtain ⟨_, q, hq, hreads⟩ | ⟨e, q, hq, hrefuses⟩ :=
      (goes_token context (hp.with_tokens rest) t).outcome
    · have hstep : Took hs p (if takesSlot t p then q.arrow?.toList else []) q := by
        split
        · rename_i ht
          exact ((hreads.binds ht).took hold).of_tokens
        · rename_i ht
          exact ((hreads.same (Bool.eq_false_iff.mpr ht)).took hold).of_tokens
      rw [all_ok hq, bindings, hq]
      obtain ⟨r, hr, hgood, htook⟩ | ⟨e, r, hr, htook⟩ := ih hreads.disciplined hstep.holding
      · exact .inl ⟨r, hr, hgood, hstep.trans htook⟩
      · exact .inr ⟨e, r, hr, hstep.trans htook⟩
    · refine .inr ⟨e, q, all_error hq, ?_⟩
      rw [bindings, hq]
      exact (hrefuses.same.took hold).of_tokens

end Parse

variable {context : Context} {tokens : List String} {w w' : World} {hs : List Handle}

/-- How a line ends, and who holds the slots then: one that is read adds the slots that it bound,
and one that fails adds none. Both leave alone what the other handles reach. -/
theorem parse_holding (context : Context) (tokens : List String) (hold : w.slots.Holding hs) :
    (Parse.bindings context tokens (.start w tokens) ++ hs).Nodup ∧
    (∀ h ∈ hs, (parse context tokens w).2.slots.find? h = w.slots.find? h) ∧
    ((∃ r w', parse context tokens w = (.ok r, w') ∧
        w'.slots.Holding (Parse.bindings context tokens (.start w tokens) ++ hs)) ∨
      ∃ e w', parse context tokens w = (.error e, w') ∧ w'.slots.Holding hs) := by
  have hfail {e : Error} {q : Parse}
      (hq : (do Parse.all context tokens; Parse.finish context : Parser (Factory × Mode))
        (.start w tokens) = .error e q)
      (htook : Parse.Took hs (.start w tokens)
        (Parse.bindings context tokens (.start w tokens)) q) :
      (∀ h ∈ hs, (parse context tokens w).2.slots.find? h = w.slots.find? h) ∧
      ∃ e w', parse context tokens w = (.error e, w') ∧ w'.slots.Holding hs := by
    obtain ⟨hrest, hfind⟩ := htook.holding.releaseAll
    rw [parse_of_error hq]
    exact ⟨fun h hh => (hfind h hh).trans (htook.kept h hh), e, _, rfl, hrest⟩
  have hnodup {q : Parse} (htook : Parse.Took hs (.start w tokens)
      (Parse.bindings context tokens (.start w tokens)) q) :
      (Parse.bindings context tokens (.start w tokens) ++ hs).Nodup := by
    have htaken : q.taken = Parse.bindings context tokens (.start w tokens) := htook.taken
    exact htaken ▸ htook.holding.nodup
  obtain ⟨q, hq, hgood, htook⟩ | ⟨e, q, hq, htook⟩ := Parse.all_took context
    (Parse.disciplined_start w tokens) (show w.slots.Holding ([] ++ hs) from hold) tokens
  · refine ⟨hnodup htook, ?_⟩
    obtain ⟨r, q', hr, hsame, -⟩ | ⟨e, q', hr, hsame, -⟩ := Parse.finish_cases context hgood
    all_goals have htook' := htook.trans (hsame.took htook.holding)
    all_goals rw [List.append_nil] at htook'
    · rw [parse_of_ok ((Parse.bind_ok hq).trans hr)]
      refine ⟨htook'.kept, .inl ⟨r, _, rfl, ?_⟩⟩
      have htaken : q'.taken = Parse.bindings context tokens (.start w tokens) := htook'.taken
      exact htaken ▸ htook'.holding
    · obtain ⟨hkept, hend⟩ := hfail ((Parse.bind_ok hq).trans hr) htook'
      exact ⟨hkept, .inr hend⟩
  · obtain ⟨hkept, hend⟩ := hfail (Parse.bind_error hq) htook
    exact ⟨hnodup htook, hkept, .inr hend⟩

/-! ## Sessions -/

namespace Session

open Run (Ends ends_pure)

/-- How reading a line and making its stream can end. -/
theorem ends_openTokens {r : Except Error (Stream × Mode)} :
    Ends (fun n => openTokens context n tokens) w r w' ↔
      (∃ e, parse context tokens w = (.error e, w') ∧ r = .error e) ∨
      ∃ f mode w₁ s, parse context tokens w = (.ok (f, mode), w₁) ∧
        Makes context f .empty w₁ s w' ∧ r = .ok (s, mode) := by
  -- reading the line does not depend on the fuel
  refine ends_get.trans ?_
  generalize parse context tokens w = a
  obtain ⟨_ | ⟨f, mode⟩, w₁⟩ := a
  · refine ends_pure.trans ⟨fun ⟨hr, hw⟩ => .inl ⟨_, by rw [hw], hr⟩, ?_⟩
    rintro (⟨_, ⟨⟩, rfl⟩ | ⟨_, _, _, _, ⟨⟩, -⟩)
    exact ⟨rfl, rfl⟩
  · show Ends (fun n => Eval.invoke context n f .empty >>= fun s => pure (.ok (s, mode))) w₁ r w' ↔ _
    refine ends_invoke.trans ⟨fun ⟨s, w₂, hs, hr⟩ => ?_, ?_⟩
    · obtain ⟨rfl, rfl⟩ := ends_pure.mp hr
      exact .inr ⟨f, mode, w₁, s, rfl, hs, rfl⟩
    · rintro (⟨_, ⟨⟩, -⟩ | ⟨_, _, _, s, ⟨⟩, hs, rfl⟩)
      exact ⟨s, w', hs, ends_pure.mpr ⟨rfl, rfl⟩⟩

/-- A line of a session: whether it was read, and the slots of its `->`. -/
structure Entry where
  /-- Whether the line was read. -/
  accepted : Bool
  /-- The slots that it bound, in order. -/
  bound : List Handle

/-- The slots that were bound by the lines that were read. -/
def held : List Entry → List Handle
  | [] => []
  | line :: rest => (if line.accepted then line.bound else []) ++ held rest

/-- Lines that were read one after the other, the last first, lead from a world to another one.
Between them anything may be pulled. -/
inductive Comes (context : Context) (start : World) : List Entry → World → Prop
  | start : Comes context start [] start
  | line {lines : List Entry} {w w' : World} {tokens : List String}
    {r : Except Error (Stream × Mode)} (h : Comes context start lines w)
    (k : Ends (fun n => openTokens context n tokens) w r w') :
    Comes context start
      (⟨r.isOk, Parse.bindings context tokens (.start w tokens)⟩ :: lines) w'
  | pull {lines : List Entry} {w w' : World} {s s' : Stream} {item : Option Item}
    (h : Comes context start lines w) (k : Pulls context s w item s' w') :
    Comes context start lines w'

/-- Exactly the slots that were bound by lines that were read are given out. -/
theorem Comes.holding {start : World} {lines : List Entry} (h : Comes context start lines w)
    (hstart : start.slots = .empty) : w.slots.Holding (held lines) := by
  induction h with
  | start =>
    rw [hstart]
    exact .empty
  | @line lines w w' tokens r h k ih =>
    obtain ⟨-, -, ⟨r', w₁, hr, hold⟩ | ⟨e, w₁, hr, hold⟩⟩ := parse_holding context tokens ih
    · obtain ⟨e, he, -⟩ | ⟨f, mode, w₂, s, hs, hmakes, rfl⟩ := ends_openTokens.mp k
      · cases he.symm.trans hr
      · cases hs.symm.trans hr
        exact hmakes.alike.holding hold
    · obtain ⟨e', he, rfl⟩ | ⟨f, mode, w₂, s, hs, -⟩ := ends_openTokens.mp k
      · cases he.symm.trans hr
        exact hold
      · cases hs.symm.trans hr
  | pull _ k ih => exact k.alike.holding ih

end Session

open Run (Ends)

/-- In a session that began with no slots, exactly the slots are given out that were bound by the
lines that were read, each once. A line that fails leaves every slot that was given out as it was,
and none of those that it bound is given out after it. -/
theorem session_slots {start : World} {lines : List Session.Entry}
    (hstart : start.slots = .empty) (h : Session.Comes context start lines w) :
    w.slots.live = (Session.held lines).length ∧ (Session.held lines).Nodup ∧
    (∀ slot, w.Live slot ↔ slot ∈ Session.held lines) ∧
    ∀ tokens e w', Ends (fun n => Session.openTokens context n tokens) w (.error e) w' →
      (∀ slot, w.Live slot → w'.slots.find? slot = w.slots.find? slot) ∧
      ∀ slot ∈ Parse.bindings context tokens (.start w tokens), ¬ w'.Live slot := by
  have hold := h.holding hstart
  refine ⟨hold.live, hold.nodup, fun slot => (hold.mem slot).symm, fun tokens e w' hends => ?_⟩
  obtain ⟨hnodup, hkept, hend⟩ := parse_holding context tokens hold
  obtain ⟨e', he, -⟩ | ⟨f, mode, w₁, s, -, -, hr⟩ := Session.ends_openTokens.mp hends
  · rw [he] at hkept
    refine ⟨fun slot hlive => hkept slot ((hold.mem slot).mpr hlive), fun slot hslot hlive => ?_⟩
    obtain ⟨r, w₁, hr, -⟩ | ⟨e, w₁, hr, hold'⟩ := hend
    · cases he.symm.trans hr
    · cases he.symm.trans hr
      exact (List.nodup_append.mp hnodup).2.2 slot hslot slot ((hold'.mem slot).mpr hlive) rfl
  · cases hr

/-- Of three lines that bind a name the second fails, and the third gets the slot that the second
had, in its next generation. -/
theorem session_slots_again : ∃ lines w,
    Session.Comes {} (.ofEnvironment .empty) lines w ∧ Session.held lines = [⟨1, 1⟩, ⟨0, 0⟩] ∧
    w.slots.live = 2 ∧ w.Live ⟨1, 1⟩ ∧ ¬ w.Live ⟨1, 0⟩ := by
  let w₀ : World := .ofEnvironment .empty
  let w₁ : World := { w₀ with slots := ⟨#[⟨0, true, none⟩], []⟩ }
  let w₂ : World := { w₀ with slots := ⟨#[⟨0, true, none⟩, ⟨1, false, none⟩], [1]⟩ }
  let w₃ : World := { w₀ with slots := ⟨#[⟨0, true, none⟩, ⟨1, true, none⟩], []⟩ }
  have p₁ : parse {} ["x", "->", "x"] w₀ =
      (.ok (.bind ⟨0, 0⟩ (.sequence (.mk [("x", ⟨0, 0⟩)] []) [.word "x"]), .default), w₁) := rfl
  have p₂ : parse {} ["y", "->", ")"] w₁ = (.error (.mismatchedBracket ')'), w₂) := rfl
  have p₃ : parse {} ["z", "->", "z"] w₂ =
      (.ok (.bind ⟨1, 1⟩ (.sequence (.mk [("z", ⟨1, 1⟩)] []) [.word "z"]), .default), w₃) := rfl
  have b₁ : Parse.bindings {} ["x", "->", "x"] (.start w₀ ["x", "->", "x"]) = [⟨0, 0⟩] := rfl
  have b₃ : Parse.bindings {} ["z", "->", "z"] (.start w₂ ["z", "->", "z"]) = [⟨1, 1⟩] := rfl
  have h₁ := Session.Comes.start.line (Session.ends_openTokens.mpr
    (.inr ⟨_, _, _, _, p₁, makes_bind.mpr ⟨rfl, rfl⟩, rfl⟩))
  have h₂ := h₁.line (Session.ends_openTokens.mpr (.inl ⟨_, p₂, rfl⟩))
  have h₃ := h₂.line (Session.ends_openTokens.mpr
    (.inr ⟨_, _, _, _, p₃, makes_bind.mpr ⟨rfl, rfl⟩, rfl⟩))
  rw [b₁, b₃] at h₃
  obtain ⟨hlive, -, hheld, -⟩ := session_slots rfl h₃
  exact ⟨_, w₃, h₃, rfl, hlive, (hheld _).mpr (by decide), fun h => absurd ((hheld _).mp h) (by decide)⟩

end Rill
