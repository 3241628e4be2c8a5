import Rill.Proofs.Slot

/-!
# Who holds the slots

`Slots.Holding` says that some handles, and no others, reach their slots, and that every other slot
can be given out again. It holds of no slots and no handles; a slot that is given out adds a handle
(`Holding.alloc`), one that is taken back removes it (`Holding.release`), and neither changes what
the other handles reach. Storing values leaves open who holds the slots (`Slots.Alike`).
-/

namespace Rill.Slots

variable {s s' : Slots} {h k : Handle} {hs : List Handle}

/-- Whether a slot is given out, and in which generation. -/
def status (s : Slots) (i : Nat) : Option (UInt32 × Bool) :=
  s.entries[i]?.map fun e => (e.generation, e.live)

/-- The handle reaches its slot. -/
def Reaches (s : Slots) (h : Handle) : Prop := ∃ e, s.find? h = some e

theorem reaches_iff : s.Reaches h ↔ s.status h.index = some (h.generation, true) := by
  unfold Reaches status
  simp only [find?_eq_some, Option.map_eq_some_iff, Prod.mk.injEq, Bool.and_eq_true, beq_iff_eq]
  exact exists_congr fun e => and_congr_right fun _ => and_comm

/-- A handle reaches what the slot in its place is. -/
theorem find?_congr (e : s'.entries[h.index]? = s.entries[h.index]?) : s'.find? h = s.find? h := by
  unfold find?
  rw [e]

/-- Exactly these handles reach their slots, and exactly the other slots can be given out. -/
structure Holding (s : Slots) (hs : List Handle) : Prop where
  nodup : hs.Nodup
  mem : ∀ h, h ∈ hs ↔ s.Reaches h
  free : s.free.Nodup
  mem_free : ∀ i, i ∈ s.free ↔ ∃ g, s.status i = some (g, false)
  size : s.entries.size = s.free.length + hs.length

namespace Holding

theorem empty : Holding .empty [] :=
  ⟨.nil, fun _ => ⟨nofun, nofun⟩, .nil, fun _ => ⟨nofun, nofun⟩, rfl⟩

theorem live (hold : s.Holding hs) : s.live = hs.length := by
  rw [Slots.live, hold.size, Nat.add_sub_cancel_left]

theorem perm (hold : s.Holding hs) {hs' : List Handle} (p : hs.Perm hs') : s.Holding hs' :=
  ⟨p.nodup_iff.mp hold.nodup, fun h => p.mem_iff.symm.trans (hold.mem h), hold.free, hold.mem_free,
    by rw [hold.size, p.length_eq]⟩

/-- Two handles that reach the same slot are the same. -/
theorem eq_of_index (hh : s.Reaches h) (hk : s.Reaches k) (e : h.index = k.index) : h = k := by
  rw [reaches_iff] at hh hk
  rw [e] at hh
  obtain ⟨i, g⟩ := h
  obtain ⟨j, g'⟩ := k
  obtain rfl : i = j := e
  obtain ⟨rfl, -⟩ := Prod.mk.inj (Option.some.inj (hh.symm.trans hk))
  rfl

/-! ## Giving out a slot -/

/-- What is given out is a slot that holds nothing. -/
theorem alloc_entry (hold : s.Holding hs) :
    s.alloc.2.entries[s.alloc.1.index]? = some ⟨s.alloc.1.generation, true, none⟩ := by
  unfold alloc
  match hf : s.free with
  | [] => exact Array.getElem?_push_size
  | i :: free =>
    obtain ⟨g, hg⟩ := (hold.mem_free i).mp (hf ▸ List.mem_cons_self)
    obtain ⟨e, he, -⟩ := Option.map_eq_some_iff.mp hg
    have hb : i < s.entries.size := (Array.getElem?_eq_some_iff.mp he).1
    exact Array.getElem?_setIfInBounds_self_of_lt hb

/-- The other slots stay as they are. -/
theorem alloc_other (s : Slots) {i : Nat} (hi : i ≠ s.alloc.1.index) :
    s.alloc.2.entries[i]? = s.entries[i]? := by
  unfold alloc at hi ⊢
  match hf : s.free with
  | [] =>
    rw [hf] at hi
    exact (Array.getElem?_push ..).trans (if_neg hi)
  | j :: free =>
    rw [hf] at hi
    exact Array.getElem?_setIfInBounds_ne (Ne.symm hi)

/-- What is given out was not held. -/
theorem alloc_fresh (hold : s.Holding hs) (hh : s.Reaches h) : h.index ≠ s.alloc.1.index := by
  intro e
  have hstatus := reaches_iff.mp hh
  rw [e] at hstatus
  unfold alloc at hstatus
  match hf : s.free with
  | [] =>
    rw [hf] at hstatus
    simp [status] at hstatus
  | i :: free =>
    rw [hf] at hstatus
    obtain ⟨g, hg⟩ := (hold.mem_free i).mp (hf ▸ List.mem_cons_self)
    exact absurd (hg.symm.trans hstatus) (by simp)

/-- The other handles reach what they reached. -/
theorem find?_alloc (hold : s.Holding hs) (hh : s.Reaches h) : s.alloc.2.find? h = s.find? h :=
  find?_congr (alloc_other s (hold.alloc_fresh hh))

/-- What can be given out again is what could be, but for the slot that was given out. -/
theorem mem_alloc_free (hold : s.Holding hs) (i : Nat) :
    i ∈ s.alloc.2.free ↔ i ∈ s.free ∧ i ≠ s.alloc.1.index := by
  have hfree := hold.free
  unfold alloc
  match hf : s.free with
  | [] => simp
  | j :: free =>
    rw [hf, List.nodup_cons] at hfree
    simp only [List.mem_cons]
    refine ⟨fun hi => ⟨.inr hi, ?_⟩, fun ⟨hi, hne⟩ => hi.resolve_left hne⟩
    rintro rfl
    exact hfree.1 hi

protected theorem alloc (hold : s.Holding hs) : s.alloc.2.Holding (s.alloc.1 :: hs) := by
  have hnew : s.alloc.2.status s.alloc.1.index = some (s.alloc.1.generation, true) := by
    rw [status, hold.alloc_entry]
    rfl
  have hother {i : Nat} (hi : i ≠ s.alloc.1.index) : s.alloc.2.status i = s.status i := by
    rw [status, alloc_other s hi, status]
  have hreaches : s.alloc.2.Reaches s.alloc.1 := reaches_iff.mpr hnew
  refine ⟨List.nodup_cons.mpr ⟨fun hmem => ?_, hold.nodup⟩, fun h => ?_, ?_, fun i => ?_, ?_⟩
  · exact hold.alloc_fresh ((hold.mem _).mp hmem) rfl
  · rw [List.mem_cons, hold.mem]
    by_cases hi : h.index = s.alloc.1.index
    · refine ⟨fun hh => ?_, fun hh => .inl (eq_of_index hh hreaches hi)⟩
      obtain rfl | hh := hh
      · exact hreaches
      · exact absurd hi (hold.alloc_fresh hh)
    · rw [reaches_iff, reaches_iff, hother hi, or_iff_right]
      rintro rfl
      exact hi rfl
  · have hfree := hold.free
    unfold alloc
    match hf : s.free with
    | [] => exact .nil
    | i :: free => exact (List.nodup_cons.mp (hf ▸ hfree)).2
  · rw [hold.mem_alloc_free]
    by_cases hi : i = s.alloc.1.index
    · rw [hi, hnew]
      simp
    · rw [hother hi, hold.mem_free]
      exact and_iff_left hi
  · have hsize := hold.size
    unfold alloc
    match hf : s.free with
    | [] => simpa [hf] using hsize
    | i :: free =>
      rw [hf, List.length_cons] at hsize
      simp only [Array.size_setIfInBounds, List.length_cons]
      omega

end Holding

/-- Gives out so many slots. -/
def allocMany (s : Slots) : Nat → List Handle × Slots
  | 0 => ([], s)
  | n + 1 => (s.alloc.1 :: (s.alloc.2.allocMany n).1, (s.alloc.2.allocMany n).2)

namespace Holding

protected theorem allocMany (hold : s.Holding hs) (n : Nat) :
    (s.allocMany n).2.Holding ((s.allocMany n).1.reverse ++ hs) := by
  induction n generalizing s hs with
  | zero => exact hold
  | succ n ih =>
    have h := ih hold.alloc
    rw [List.append_cons, ← List.reverse_cons] at h
    exact h

/-! ## Taking a slot back -/

/-- The slot is taken back. -/
theorem release_eq {e : Slot} (he : s.find? h = some e) :
    s.release h =
      ⟨s.entries.setIfInBounds h.index ⟨e.generation + 1, false, none⟩, h.index :: s.free⟩ := by
  unfold release
  rw [he]

/-- The other handles reach what they reached. -/
theorem find?_release (hold : s.Holding (h :: hs)) (hk : k ∈ hs) :
    (s.release h).find? k = s.find? k := by
  have hh := (hold.mem h).mp List.mem_cons_self
  obtain ⟨e, he⟩ := hh
  rw [release_eq he]
  refine find?_congr (Array.getElem?_setIfInBounds_ne fun hi => ?_)
  obtain rfl := eq_of_index ⟨e, he⟩ ((hold.mem k).mp (List.mem_cons_of_mem _ hk)) hi
  exact (List.nodup_cons.mp hold.nodup).1 hk

protected theorem release (hold : s.Holding (h :: hs)) : (s.release h).Holding hs := by
  have hh := (hold.mem h).mp List.mem_cons_self
  obtain ⟨hnew, hnodup⟩ := List.nodup_cons.mp hold.nodup
  have hself : ∃ g, (s.release h).status h.index = some (g, false) := by
    obtain ⟨e, he⟩ := hh
    have hb : h.index < s.entries.size := (Array.getElem?_eq_some_iff.mp (find?_eq_some.mp he).1).1
    rw [release_eq he, status]
    exact ⟨_, congrArg _ (Array.getElem?_setIfInBounds_self_of_lt hb)⟩
  have hother {i : Nat} (hi : i ≠ h.index) : (s.release h).status i = s.status i := by
    obtain ⟨e, he⟩ := hh
    rw [release_eq he]
    exact congrArg _ (Array.getElem?_setIfInBounds_ne (Ne.symm hi))
  have hfree : (s.release h).free = h.index :: s.free := by
    obtain ⟨e, he⟩ := hh
    rw [release_eq he]
  refine ⟨hnodup, fun k => ?_, ?_, fun i => ?_, ?_⟩
  · by_cases hi : k.index = h.index
    · obtain ⟨g, hg⟩ := hself
      rw [reaches_iff, hi, hg]
      refine ⟨fun hk => absurd hk fun hk => hnew ?_, by simp⟩
      exact eq_of_index hh ((hold.mem k).mp (List.mem_cons_of_mem _ hk)) hi.symm ▸ hk
    · rw [reaches_iff, hother hi, ← reaches_iff, ← hold.mem, List.mem_cons, or_iff_right]
      rintro rfl
      exact hi rfl
  · rw [hfree, List.nodup_cons]
    refine ⟨fun hmem => ?_, hold.free⟩
    obtain ⟨g, hg⟩ := (hold.mem_free _).mp hmem
    exact absurd (hg.symm.trans (reaches_iff.mp hh)) (by simp)
  · rw [hfree, List.mem_cons]
    by_cases hi : i = h.index
    · exact ⟨fun _ => hi ▸ hself, fun _ => .inl hi⟩
    · rw [hother hi, ← hold.mem_free, or_iff_right hi]
  · have hsize := hold.size
    obtain ⟨e, he⟩ := hh
    rw [List.length_cons] at hsize
    rw [release_eq he, Array.size_setIfInBounds, List.length_cons]
    omega

/-- All slots that were taken on top are taken back. -/
theorem releaseAll {taken : List Handle} (hold : s.Holding (taken ++ hs)) :
    (taken.foldl Slots.release s).Holding hs ∧
      ∀ h ∈ hs, (taken.foldl Slots.release s).find? h = s.find? h := by
  induction taken generalizing s with
  | nil => exact ⟨hold, fun _ _ => rfl⟩
  | cons h taken ih =>
    obtain ⟨hrest, hfind⟩ := ih hold.release
    refine ⟨hrest, fun k hk => (hfind k hk).trans ?_⟩
    exact hold.find?_release (List.mem_append_right taken hk)

end Holding

/-! ## Storing values -/

/-- The same slots are given out, and the same can be. -/
structure Alike (s s' : Slots) : Prop where
  free : s'.free = s.free
  size : s'.entries.size = s.entries.size
  status : ∀ i, s'.status i = s.status i

theorem Alike.refl (s : Slots) : Alike s s := ⟨rfl, rfl, fun _ => rfl⟩

theorem Alike.trans {s'' : Slots} (a : Alike s s') (b : Alike s' s'') : Alike s s'' :=
  ⟨b.free.trans a.free, b.size.trans a.size, fun i => (b.status i).trans (a.status i)⟩

theorem Alike.reaches (a : Alike s s') : s'.Reaches h ↔ s.Reaches h := by
  rw [reaches_iff, reaches_iff, a.status]

theorem Alike.holding (a : Alike s s') (hold : s.Holding hs) : s'.Holding hs := by
  refine ⟨hold.nodup, fun h => (hold.mem h).trans a.reaches.symm, a.free ▸ hold.free, fun i => ?_,
    ?_⟩
  · rw [a.free, a.status]
    exact hold.mem_free i
  · rw [a.size, a.free, hold.size]

/-- Storing a value changes no status. -/
theorem alike_set (s : Slots) (h : Handle) (v : Value) : Alike s (s.set h v).2 := by
  cases hf : s.find? h with
  | none =>
    rw [set, hf]
    exact .refl s
  | some e =>
    rw [set_of_find? hf]
    have he := (find?_eq_some.mp hf).1
    have hb : h.index < s.entries.size := (Array.getElem?_eq_some_iff.mp he).1
    refine ⟨rfl, Array.size_setIfInBounds, fun i => ?_⟩
    by_cases hi : h.index = i
    · subst hi
      rw [status, Array.getElem?_setIfInBounds_self_of_lt hb, status, he]
      rfl
    · exact congrArg _ (Array.getElem?_setIfInBounds_ne hi)

/-- Storing a value leaves what other handles reach. -/
theorem find?_set_of_ne (hh : s.Reaches h) (hk : s.Reaches k) (hne : h ≠ k) (v : Value) :
    (s.set h v).2.find? k = s.find? k := by
  have hi : h.index ≠ k.index := fun e => hne (Holding.eq_of_index hh hk e)
  obtain ⟨e, he⟩ := hh
  rw [set_of_find? he]
  exact find?_congr (Array.getElem?_setIfInBounds_ne hi)

end Rill.Slots
