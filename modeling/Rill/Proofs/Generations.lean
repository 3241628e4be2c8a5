import Rill.Proofs.Holding

/-!
# Handles and generations

A slot is given out again and again, and only the generation of a handle tells for whom. As long as
no slot is taken back so often that its generation starts anew, that is enough: whatever was done
with the slots, every handle that was given out is another one, what is read through it is what was
last stored through it, and once it was taken back nothing is done through it any more
(`calls_keep_apart`).

`Recorded` is what one call keeps: the generation of a slot is the number of times that it was taken
back (`Recorded.generation`), which is more than in any handle from before (`Recorded.stale`). So
what is given out next is none of them (`Recorded.alloc_fresh`).
-/

namespace Rill.Slots

/-! ## What was done with the slots -/

/-- What is done with the slots. -/
inductive Call where
  /-- A slot is given out. -/
  | alloc
  /-- What the slot holds is read. -/
  | get (h : Handle)
  /-- A value is stored. -/
  | set (h : Handle) (v : Value)
  /-- A slot is taken back. -/
  | release (h : Handle)

/-- The slots after what was done with them, the last first. -/
def after : List Call → Slots
  | [] => .empty
  | .alloc :: earlier => (after earlier).alloc.2
  | .get _ :: earlier => after earlier
  | .set h v :: earlier => ((after earlier).set h v).2
  | .release h :: earlier => (after earlier).release h

/-- The handles that were given out, the last first. -/
def given : List Call → List Handle
  | [] => []
  | .alloc :: earlier => (after earlier).alloc.1 :: given earlier
  | .get _ :: earlier | .set _ _ :: earlier | .release _ :: earlier => given earlier

/-- The handles that were taken back, the last first: only what was given out can be, and only
once. -/
def released : List Call → List Handle
  | [] => []
  | .release h :: earlier =>
    if h ∈ given earlier ∧ h ∉ released earlier then h :: released earlier else released earlier
  | .alloc :: earlier | .get _ :: earlier | .set _ _ :: earlier => released earlier

/-- How often the slot was taken back. -/
def releases (i : Nat) (calls : List Call) : Nat := (released calls).countP (·.index == i)

/-- The handles that were given out and not taken back, the last first. -/
def held (calls : List Call) : List Handle := (given calls).filter (· ∉ released calls)

/-- What was last stored through the handle since it was given out. -/
def lastSet? (h : Handle) : List Call → Option Value
  | [] => none
  | .set k v :: earlier => if k = h ∧ h ∈ given earlier then some v else lastSet? h earlier
  | .alloc :: earlier | .get _ :: earlier | .release _ :: earlier => lastSet? h earlier

variable {s : Slots} {calls earlier : List Call} {h k : Handle}

theorem mem_held : h ∈ held calls ↔ h ∈ given calls ∧ h ∉ released calls := by
  rw [held, List.mem_filter, decide_eq_true_iff]

theorem mem_given (hh : h ∈ released calls) : h ∈ given calls := by
  induction calls with
  | nil => exact hh
  | cons c earlier ih =>
    cases c with
    | alloc => exact List.mem_cons_of_mem _ (ih hh)
    | get _ => exact ih hh
    | set _ _ => exact ih hh
    | release k =>
      rw [released] at hh
      split at hh
      · rename_i hk
        obtain rfl | hh := List.mem_cons.mp hh
        · exact hk.1
        · exact ih hh
      · exact ih hh

theorem lastSet?_of_not_given (hh : h ∉ given calls) : lastSet? h calls = none := by
  induction calls with
  | nil => rfl
  | cons c earlier ih =>
    cases c with
    | alloc => exact ih fun hg => hh (List.mem_cons_of_mem _ hg)
    | get _ => exact ih hh
    | set k v => exact (if_neg fun hk => hh hk.2).trans (ih hh)
    | release _ => exact ih hh

/-- What is taken back was held. -/
theorem released_release (hh : h ∈ held earlier) :
    released (.release h :: earlier) = h :: released earlier :=
  if_pos (mem_held.mp hh)

/-- Nothing else is taken back. -/
theorem released_release_of_not_held (hh : h ∉ held earlier) :
    released (.release h :: earlier) = released earlier :=
  if_neg fun hk => hh (mem_held.mpr hk)

theorem releases_release (hh : h ∈ held earlier) (i : Nat) :
    releases i (.release h :: earlier) = releases i earlier + if h.index == i then 1 else 0 := by
  rw [releases, released_release hh, List.countP_cons, ← releases]

theorem releases_release_of_not_held (hh : h ∉ held earlier) (i : Nat) :
    releases i (.release h :: earlier) = releases i earlier := by
  rw [releases, released_release_of_not_held hh, ← releases]

/-- The number of times that a slot was taken back only grows. -/
theorem releases_le_cons (i : Nat) (c : Call) (earlier : List Call) :
    releases i earlier ≤ releases i (c :: earlier) := by
  cases c with
  | alloc => exact Nat.le_refl _
  | get _ => exact Nat.le_refl _
  | set _ _ => exact Nat.le_refl _
  | release h =>
    by_cases hh : h ∈ held earlier
    · rw [releases_release hh]
      exact Nat.le_add_right ..
    · exact Nat.le_of_eq (releases_release_of_not_held hh i).symm

/-! ## What one call keeps -/

/-- The generation of the slot in this place, and of the one that would be added there. -/
def generation (s : Slots) (i : Nat) : UInt32 := (s.entries[i]?.map Slot.generation).getD 0

theorem generation_eq_of_find? {e : Slot} (he : s.find? h = some e) :
    e.generation = h.generation ∧ s.generation h.index = h.generation := by
  obtain ⟨hentry, hc⟩ := find?_eq_some.mp he
  have hg : e.generation = h.generation := eq_of_beq (Bool.and_eq_true_iff.mp hc).2
  rw [generation, hentry]
  exact ⟨hg, hg⟩

/-- What is given out has the generation of its slot. -/
theorem alloc_generation (s : Slots) : s.alloc.1.generation = s.generation s.alloc.1.index := by
  unfold alloc
  match hf : s.free with
  | [] => simp [generation]
  | i :: free => rfl

/-- Giving out a slot changes no generation. -/
theorem generation_alloc {hs : List Handle} (hold : s.Holding hs) (i : Nat) :
    s.alloc.2.generation i = s.generation i := by
  by_cases hi : i = s.alloc.1.index
  · rw [hi, ← alloc_generation, generation, hold.alloc_entry]
    rfl
  · rw [generation, Holding.alloc_other s hi, generation]

theorem Alike.generation {s' : Slots} (a : Alike s s') (i : Nat) :
    s'.generation i = s.generation i := by
  have hmap (s : Slots) : s.generation i = ((s.status i).map Prod.fst).getD 0 := by
    rw [Slots.generation, Slots.status, Option.map_map]
    rfl
  rw [hmap, hmap, a.status]

/-- Taking a slot back changes its generation, and no other. -/
theorem generation_release {e : Slot} (he : s.find? h = some e) (i : Nat) :
    (s.release h).generation i = if h.index == i then s.generation i + 1 else s.generation i := by
  have hb : h.index < s.entries.size := (Array.getElem?_eq_some_iff.mp (find?_eq_some.mp he).1).1
  rw [Holding.release_eq he, generation]
  split
  · rename_i hi
    obtain rfl := eq_of_beq hi
    rw [Array.getElem?_setIfInBounds_self_of_lt hb, (generation_eq_of_find? he).2,
      ← (generation_eq_of_find? he).1]
    rfl
  · rename_i hi
    rw [Array.getElem?_setIfInBounds_ne fun k => hi (beq_iff_eq.mpr k), generation]

/-- The slots are what was done with them says. -/
structure Recorded (s : Slots) (calls : List Call) : Prop where
  /-- Those reach their slots that were given out and not taken back. -/
  holding : s.Holding (held calls)
  /-- No handle was given out twice. -/
  nodup : (given calls).Nodup
  /-- The generation is the number of times that a slot was taken back. -/
  generation (i : Nat) : (s.generation i).toNat = releases i calls
  /-- A handle that was taken back is of an earlier generation. -/
  stale (h : Handle) : h ∈ released calls → h.generation.toNat < releases h.index calls
  /-- A slot holds what was last stored. -/
  stored (h : Handle) : h ∈ held calls → s.get? h = lastSet? h calls

namespace Recorded

theorem empty : Recorded .empty [] where
  holding := .empty
  nodup := .nil
  generation _ := rfl
  stale _ := nofun
  stored _ := nofun

theorem reaches (known : Recorded s calls) : h ∈ held calls ↔ s.Reaches h := known.holding.mem h

theorem find?_eq_none (known : Recorded s calls) (hh : h ∉ held calls) : s.find? h = none :=
  Option.eq_none_iff_forall_ne_some.mpr fun e he => hh (known.reaches.mpr ⟨e, he⟩)

/-- What is given out next was never given out. -/
theorem alloc_fresh (known : Recorded s calls) : s.alloc.1 ∉ given calls := by
  intro hg
  by_cases hr : s.alloc.1 ∈ released calls
  · have hlt := known.stale _ hr
    rw [alloc_generation, known.generation] at hlt
    exact Nat.lt_irrefl _ hlt
  · exact known.holding.alloc_fresh (known.reaches.mp (mem_held.mpr ⟨hg, hr⟩)) rfl

theorem held_alloc (known : Recorded (after earlier) earlier) :
    held (.alloc :: earlier) = (after earlier).alloc.1 :: held earlier :=
  List.filter_cons_of_pos (decide_eq_true fun hr => known.alloc_fresh (mem_given hr))

protected theorem alloc (known : Recorded (after earlier) earlier) :
    Recorded (after (.alloc :: earlier)) (.alloc :: earlier) where
  holding := known.held_alloc ▸ known.holding.alloc
  nodup := List.nodup_cons.mpr ⟨known.alloc_fresh, known.nodup⟩
  generation i := by
    rw [after, generation_alloc known.holding]
    exact known.generation i
  stale := known.stale
  stored h hh := by
    rw [known.held_alloc] at hh
    obtain rfl | hh := List.mem_cons.mp hh
    · obtain ⟨e, he⟩ := (known.holding.alloc.mem _).mp List.mem_cons_self
      have hentry := known.holding.alloc_entry.symm.trans (find?_eq_some.mp he).1
      rw [lastSet?, lastSet?_of_not_given known.alloc_fresh, after, get?, he,
        ← Option.some.inj hentry]
      rfl
    · rw [after, get?, known.holding.find?_alloc (known.reaches.mp hh), ← get?]
      exact known.stored h hh

protected theorem get (known : Recorded (after earlier) earlier) (h : Handle) :
    Recorded (after (.get h :: earlier)) (.get h :: earlier) :=
  ⟨known.holding, known.nodup, known.generation, known.stale, known.stored⟩

protected theorem set (known : Recorded (after earlier) earlier) (h : Handle) (v : Value) :
    Recorded (after (.set h v :: earlier)) (.set h v :: earlier) where
  holding := (alike_set (after earlier) h v).holding known.holding
  nodup := known.nodup
  generation i := by
    rw [after, (alike_set (after earlier) h v).generation]
    exact known.generation i
  stale := known.stale
  stored k hk := by
    have hkept := known.stored k hk
    rw [after, lastSet?]
    by_cases hh : h ∈ held earlier
    · obtain ⟨e, he⟩ := known.reaches.mp hh
      by_cases hkh : h = k
      · subst hkh
        rw [if_pos ⟨rfl, (mem_held.mp hk).1⟩, get?_set_self he]
      · rw [if_neg fun hc => hkh hc.1, get?,
          find?_set_of_ne ⟨e, he⟩ (known.reaches.mp hk) hkh, ← get?, hkept]
    · -- what is not held does not reach a slot, and is not the handle that is held
      have hkh : h ≠ k := fun hkh => hh (hkh ▸ hk)
      rw [if_neg fun hc => hkh hc.1, Slots.set, known.find?_eq_none hh, hkept]

theorem perm_held_release (known : Recorded s earlier) (hh : h ∈ held earlier) :
    (held earlier).Perm (h :: held (.release h :: earlier)) := by
  have hnodup : (held earlier).Nodup := known.holding.nodup
  have herase : held (.release h :: earlier) = (held earlier).erase h := by
    rw [hnodup.erase_eq_filter, held, held, List.filter_filter, released_release hh, given]
    refine List.filter_congr fun k _ => ?_
    simp only [List.mem_cons, not_or, Bool.decide_and, decide_not]
    rfl
  rw [herase]
  exact List.perm_cons_erase hh

/-- A slot that is held is taken back: its generation is then that of no handle so far. -/
theorem release_held (known : Recorded (after earlier) earlier) (hh : h ∈ held earlier)
    (bound : releases h.index (.release h :: earlier) < UInt32.size) :
    Recorded (after (.release h :: earlier)) (.release h :: earlier) := by
  obtain ⟨e, he⟩ := known.reaches.mp hh
  have hold := known.holding.perm (known.perm_held_release hh)
  have hgen := known.generation h.index
  rw [releases_release hh, beq_self_eq_true, if_pos rfl] at bound
  refine ⟨hold.release, known.nodup, fun i => ?_, fun k hk => ?_, fun k hk => ?_⟩
  · rw [after, generation_release he, releases_release hh]
    split
    · rename_i hi
      obtain rfl := eq_of_beq hi
      rw [UInt32.toNat_add, hgen, UInt32.toNat_one]
      exact Nat.mod_eq_of_lt bound
    · exact known.generation i
  · rw [released_release hh] at hk
    rw [releases_release hh]
    obtain rfl | hk := List.mem_cons.mp hk
    · rw [(generation_eq_of_find? he).2] at hgen
      rw [hgen, beq_self_eq_true, if_pos rfl]
      exact Nat.lt_succ_self _
    · exact Nat.lt_of_lt_of_le (known.stale k hk) (Nat.le_add_right ..)
  · have hkept : k ∈ held earlier :=
      (known.perm_held_release hh).mem_iff.mpr (List.mem_cons_of_mem h hk)
    rw [after, get?, hold.find?_release hk, ← get?]
    exact known.stored k hkept

/-- What is not held cannot be taken back. -/
theorem release_of_not_held (known : Recorded (after earlier) earlier) (hh : h ∉ held earlier) :
    Recorded (after (.release h :: earlier)) (.release h :: earlier) := by
  have hreleased := released_release_of_not_held hh
  have hheld : held (.release h :: earlier) = held earlier := by
    rw [held, hreleased, given, ← held]
  have hafter : after (.release h :: earlier) = after earlier := by
    rw [after, Slots.release, known.find?_eq_none hh]
  rw [hafter]
  refine ⟨hheld ▸ known.holding, known.nodup, fun i => ?_, fun k hk => ?_, fun k hk => ?_⟩
  · rw [releases_release_of_not_held hh]
    exact known.generation i
  · rw [releases_release_of_not_held hh]
    exact known.stale k (hreleased ▸ hk)
  · exact known.stored k (hheld ▸ hk)

end Recorded

/-! ## What all calls keep -/

theorem recorded_after (calls : List Call) (bound : ∀ i, releases i calls < UInt32.size) :
    Recorded (after calls) calls := by
  induction calls with
  | nil => exact .empty
  | cons c earlier ih =>
    have known := ih fun i => Nat.lt_of_le_of_lt (releases_le_cons i c earlier) (bound i)
    cases c with
    | alloc => exact known.alloc
    | get h => exact known.get h
    | set h v => exact known.set h v
    | release h =>
      by_cases hh : h ∈ held earlier
      · exact known.release_held hh (bound h.index)
      · exact known.release_of_not_held hh

/-- Whatever was done with the slots, as long as no slot is taken back 2³² times: what can be given
out again are, each once, the slots that are not given out; the handles that were given out and not
taken back are counted; no handle is given out twice; what is read through a handle is what was last
stored through it, and nothing once it was taken back; and through any handle that is not held
nothing is stored or taken back. -/
theorem calls_keep_apart (calls : List Call) (bound : ∀ i, releases i calls < UInt32.size) :
    (after calls).free.Nodup ∧
    (∀ i, i ∈ (after calls).free ↔ ∃ e, (after calls).entries[i]? = some e ∧ e.live = false) ∧
    (after calls).live = ((given calls).filter (· ∉ released calls)).length ∧
    (given calls).Nodup ∧ (after calls).alloc.1 ∉ given calls ∧
    (∀ h, (after calls).get? h = if h ∈ released calls then none else lastSet? h calls) ∧
    (∀ h v, ((after calls).set h v).1 = decide (h ∈ given calls ∧ h ∉ released calls)) ∧
    ∀ h, ¬(h ∈ given calls ∧ h ∉ released calls) →
      (∀ v, ((after calls).set h v).2 = after calls) ∧ (after calls).release h = after calls := by
  have known := recorded_after calls bound
  refine ⟨known.holding.free, fun i => ?_, known.holding.live, known.nodup, known.alloc_fresh,
    fun h => ?_, fun h v => ?_, fun h hh => ?_⟩
  · rw [known.holding.mem_free]
    simp only [status, Option.map_eq_some_iff, Prod.mk.injEq]
    constructor
    · rintro ⟨g, e, he, -, hl⟩
      exact ⟨e, he, hl⟩
    · rintro ⟨e, he, hl⟩
      exact ⟨e.generation, e, he, rfl, hl⟩
  · by_cases hh : h ∈ held calls
    · rw [known.stored h hh, if_neg (mem_held.mp hh).2]
    · rw [get?, known.find?_eq_none hh]
      split
      · rfl
      · rename_i hr
        exact (lastSet?_of_not_given fun hg => hh (mem_held.mpr ⟨hg, hr⟩)).symm
  · by_cases hh : h ∈ held calls
    · obtain ⟨e, he⟩ := known.reaches.mp hh
      rw [Slots.set, he, decide_eq_true (mem_held.mp hh)]
    · rw [Slots.set, known.find?_eq_none hh, decide_eq_false (mt mem_held.mpr hh)]
  · have hnone := known.find?_eq_none (mt mem_held.mp hh)
    refine ⟨fun v => ?_, ?_⟩
    · rw [Slots.set, hnone]
    · rw [release, hnone]

/-- A slot that was taken back twice and given out again holds nothing of what is stored through
the handle from before. -/
theorem calls_keep_apart_stale :
    let v : Value := .string "now"
    let w : Value := .string "late"
    let old : Handle := ⟨0, 0⟩
    let reused : Handle := ⟨0, 1⟩
    let calls : List Call :=
      [.set old w, .alloc, .release old, .release old, .set old v, .alloc]
    given calls = [reused, old] ∧ (∀ i, releases i calls < UInt32.size) ∧
    ((after calls).set old w).1 = false ∧ (after calls).get? old = none ∧
    (after calls).get? reused = none ∧ (after calls).live = 1 ∧
    (after (.set reused v :: calls)).get? reused = some v := by
  intro v w old reused calls
  have hgiven : given calls = [reused, old] := rfl
  have hreleased : released calls = [old] := rfl
  have bound (i : Nat) : releases i calls < UInt32.size :=
    Nat.lt_of_le_of_lt List.countP_le_length (by rw [hreleased]; decide)
  obtain ⟨-, -, hlive, -, -, hget, hset, -⟩ := calls_keep_apart calls bound
  have hstored := (calls_keep_apart (.set reused v :: calls) bound).2.2.2.2.2.1 reused
  rw [hgiven, hreleased] at hlive
  refine ⟨hgiven, bound, (hset old w).trans ?_, (hget old).trans ?_, (hget reused).trans ?_, hlive,
    hstored.trans ?_⟩
  · rw [hreleased]
    decide
  · rw [hreleased]
    rfl
  · rw [hreleased]
    rfl
  · rw [released, hreleased, lastSet?, hgiven]
    rfl

end Rill.Slots
