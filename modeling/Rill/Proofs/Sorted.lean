import Mathlib.Data.List.Induction
import Rill.Json.Basic

/-!
# Sorted entries

Entries whose keys strictly increase (`Increasing`) are determined by what is found under each key
(`Increasing.ext`). `insert` and `merge` keep the order, whatever is put in, and entries that are
in order are the merge of nothing and themselves (`ofList_of_increasing`). A merge depends on what
is put in only through its entries in order (`merge_ofList`).
-/

namespace Rill.Sorted

variable {α : Type} {key other : String} {value : α} {entries more : Sorted α}

/-- The keys strictly increase. -/
def Increasing (entries : Sorted α) : Prop := entries.Pairwise (·.1 < ·.1)

/-! ## Insertion -/

theorem mem_insert {e : String × α} (h : e ∈ insert key value entries) :
    e = (key, value) ∨ e ∈ entries := by
  induction entries with
  | nil => exact .inl (List.mem_singleton.mp h)
  | cons f rest ih =>
    obtain ⟨k, v⟩ := f
    rw [insert] at h
    split at h
    · exact List.mem_cons.mp h
    · split at h
      · exact (List.mem_cons.mp h).imp_right (List.mem_cons_of_mem _)
      · obtain rfl | h := List.mem_cons.mp h
        · exact .inr List.mem_cons_self
        · exact (ih h).imp_right (List.mem_cons_of_mem _)

theorem Increasing.insert (h : Increasing entries) (key : String) (value : α) :
    Increasing (insert key value entries) := by
  induction entries with
  | nil => exact List.pairwise_singleton ..
  | cons e rest ih =>
    obtain ⟨k, v⟩ := e
    obtain ⟨hfirst, hrest⟩ := List.pairwise_cons.mp h
    rw [Sorted.insert]
    split
    · rename_i hlt
      refine List.pairwise_cons.mpr ⟨fun f hf => ?_, h⟩
      obtain rfl | hf := List.mem_cons.mp hf
      · exact hlt
      · exact String.lt_trans hlt (hfirst f hf)
    · split
      · rename_i heq
        exact List.pairwise_cons.mpr ⟨heq ▸ hfirst, hrest⟩
      · rename_i hlt hne
        refine List.pairwise_cons.mpr ⟨fun f hf => ?_, ih hrest⟩
        obtain rfl | hf := mem_insert hf
        · exact Decidable.byContradiction fun hge =>
            hne (String.le_antisymm (String.not_lt.mp hge) (String.not_lt.mp hlt))
        · exact hfirst f hf

theorem Increasing.merge (h : Increasing entries) (more : Sorted α) :
    Increasing (merge entries more) := by
  induction more generalizing entries with
  | nil => exact h
  | cons e more ih => exact ih (h.insert e.1 e.2)

/-- A key that comes after all others is put at the end. -/
theorem insert_of_lt (h : ∀ e ∈ entries, e.1 < key) :
    insert key value entries = entries ++ [(key, value)] := by
  induction entries with
  | nil => rfl
  | cons e rest ih =>
    have he : e.1 < key := h e List.mem_cons_self
    rw [insert, if_neg (String.lt_asymm he), if_neg (String.ne_of_lt he).symm,
      ih fun e' he' => h e' (List.mem_cons_of_mem _ he'), List.cons_append]

/-- Entries that come after all others, in order, are put at the end. -/
theorem merge_of_increasing (h : Increasing (entries ++ more)) :
    merge entries more = entries ++ more := by
  induction more generalizing entries with
  | nil => exact (List.append_nil entries).symm
  | cons e more ih =>
    have he : ∀ f ∈ entries, f.1 < e.1 := fun f hf =>
      (List.pairwise_append.mp h).2.2 f hf e List.mem_cons_self
    show merge (insert e.1 e.2 entries) more = _
    rw [insert_of_lt he, ih (by rwa [List.append_assoc]), List.append_assoc]
    rfl

/-- Entries that are in order stay as they are. -/
theorem ofList_of_increasing (h : Increasing entries) : ofList entries = entries :=
  merge_of_increasing h

/-! ## Entries in any order -/

/-- Of two entries with one key the last counts. -/
theorem insert_insert (key : String) (value new : α) (entries : Sorted α) :
    insert key new (insert key value entries) = insert key new entries := by
  induction entries with
  | nil => simp [insert]
  | cons e rest ih =>
    obtain ⟨k, v⟩ := e
    rw [insert, insert]
    split
    · rw [insert, if_neg (String.lt_irrefl key), if_pos rfl]
    · split
      · rw [insert, if_neg (String.lt_irrefl key), if_pos rfl]
      · rename_i hlt hne
        rw [insert, if_neg hlt, if_neg hne, ih]

/-- An entry that comes before another may be put in after it. -/
theorem insert_comm (h : key < other) (value new : α) (entries : Sorted α) :
    insert key value (insert other new entries) = insert other new (insert key value entries) := by
  have hlt : ¬ other < key := String.lt_asymm h
  have hne : ¬ other = key := (String.ne_of_lt h).symm
  induction entries with
  | nil => simp only [insert, if_pos h, if_neg hlt, if_neg hne]
  | cons e rest ih =>
    obtain ⟨k, v⟩ := e
    by_cases hk : key < k
    · by_cases ho : other < k
      · simp only [insert, if_pos h, if_pos hk, if_pos ho, if_neg hlt, if_neg hne]
      · by_cases he : other = k
        · simp only [insert, if_pos h, if_pos hk, if_neg ho, if_pos he, if_neg hlt, if_neg hne]
        · simp only [insert, if_pos hk, if_neg ho, if_neg he, if_neg hlt, if_neg hne]
    · by_cases he : key = k
      · subst he
        simp only [insert, if_neg hk, if_pos, if_neg hlt, if_neg hne]
      · have hk' : k < key := Decidable.byContradiction fun hge =>
          he (String.le_antisymm (String.not_lt.mp hge) (String.not_lt.mp hk))
        have ho : ¬ other < k := String.lt_asymm (String.lt_trans hk' h)
        have he' : ¬ other = k := (String.ne_of_lt (String.lt_trans hk' h)).symm
        simp only [insert, if_neg hk, if_neg he, if_neg ho, if_neg he', ih]

/-- An entry with a key of its own may be put in before others. -/
theorem insert_merge (h : ∀ e ∈ more, key < e.1) (value : α) (base : Sorted α) :
    insert key value (merge base more) = merge (insert key value base) more := by
  induction more generalizing base with
  | nil => rfl
  | cons e more ih =>
    obtain ⟨he, hmore⟩ := List.forall_mem_cons.mp h
    show insert key value (merge (insert e.1 e.2 base) more) =
      merge (insert e.1 e.2 (insert key value base)) more
    rw [ih hmore, insert_comm he]

theorem merge_insert (h : Increasing more) (key : String) (value : α) (base : Sorted α) :
    merge base (insert key value more) = insert key value (merge base more) := by
  induction more generalizing base with
  | nil => rfl
  | cons e more ih =>
    obtain ⟨k, v⟩ := e
    obtain ⟨hfirst, hmore⟩ := List.pairwise_cons.mp h
    rw [insert]
    split
    · rename_i hlt
      have hall : ∀ e ∈ (k, v) :: more, key < e.1 :=
        List.forall_mem_cons.mpr ⟨hlt, fun e he => String.lt_trans hlt (hfirst e he)⟩
      exact (insert_merge hall value base).symm
    · split
      · rename_i heq
        subst heq
        show merge (insert key value base) more = insert key value (merge (insert key v base) more)
        rw [insert_merge hfirst, insert_insert]
      · exact ih hmore (insert k v base)

/-- Entries in any order are put in as they are when they are in order. -/
theorem merge_ofList (base : Sorted α) (entries : List (String × α)) :
    merge base (ofList entries) = merge base entries := by
  induction entries using List.reverseRecOn with
  | nil => rfl
  | append_singleton entries e ih =>
    have hsnoc (base : Sorted α) :
        merge base (entries ++ [e]) = insert e.1 e.2 (merge base entries) := List.foldl_append
    have hsorted : Increasing (ofList entries) := Increasing.merge .nil entries
    show merge base (merge [] (entries ++ [e])) = _
    rw [hsnoc [], ← ofList, merge_insert hsorted, ih, hsnoc base]

/-! ## What is found -/

/-- What is found after a merge was put in, or was there before. -/
theorem find?_merge (name : String) (base more : Sorted α) :
    find? name (merge base more) = (find? name (ofList more)).or (find? name base) := by
  -- the base is general, since the first binding goes into it
  induction more generalizing base with
  | nil => rfl
  | cons b more ih =>
    obtain ⟨key, value⟩ := b
    show find? name (merge (insert key value base) more) =
      (find? name (merge (insert key value []) more)).or (find? name base)
    rw [ih (insert key value base), ih (insert key value []), Option.or_assoc]
    by_cases h : name = key
    · subst h
      rw [find?_insert_self, find?_insert_self, Option.some_or]
    · rw [find?_insert_of_ne h, find?_insert_of_ne h]
      rfl

/-- A key is one of the keys if something is found under it. -/
theorem mem_keys_iff : key ∈ keys entries ↔ (find? key entries).isSome := by
  induction entries with
  | nil => simp [keys, find?]
  | cons e rest ih =>
    obtain ⟨k, v⟩ := e
    rw [keys, List.map_cons, List.mem_cons, find?]
    split
    · rename_i h
      simp [h]
    · rename_i h
      rw [or_iff_right (Ne.symm h)]
      exact ih

/-- Nothing is found under a key that was never put in. -/
theorem find?_ofList_of_not_mem {entries : List (String × α)} (h : ∀ e ∈ entries, e.1 ≠ key) :
    find? key (ofList entries) = none := by
  induction entries with
  | nil => rfl
  | cons e rest ih =>
    obtain ⟨hne, hrest⟩ := List.forall_mem_cons.mp h
    show find? key (merge (insert e.1 e.2 []) rest) = none
    rw [find?_merge, ih hrest, find?_insert_of_ne (Ne.symm hne)]
    rfl

theorem find?_of_lt (h : ∀ e ∈ entries, key < e.1) : find? key entries = none := by
  refine Option.not_isSome_iff_eq_none.mp fun hs => ?_
  obtain ⟨e, he, rfl⟩ := List.mem_map.mp (mem_keys_iff.mpr hs)
  exact String.lt_irrefl _ (h e he)

theorem find?_cons_self (e : String × α) (rest : Sorted α) : find? e.1 (e :: rest) = some e.2 :=
  if_pos rfl

/-- Entries in order are determined by what is found under each key. -/
theorem Increasing.ext (h : Increasing entries) (k : Increasing more)
    (e : ∀ key, find? key entries = find? key more) : entries = more := by
  induction entries generalizing more with
  | nil =>
    cases more with
    | nil => rfl
    | cons b more => cases (e b.1).trans (find?_cons_self b more)
  | cons a rest ih =>
    cases more with
    | nil => cases (e a.1).symm.trans (find?_cons_self a rest)
    | cons b more =>
      obtain ⟨ha, hrest⟩ := List.pairwise_cons.mp h
      obtain ⟨hb, hmore⟩ := List.pairwise_cons.mp k
      -- a smaller first key would be found on its side only
      have hkey : a.1 = b.1 := by
        refine String.le_antisymm (String.not_lt.mp fun hlt => ?_) (String.not_lt.mp fun hlt => ?_)
        · have hnone := find?_of_lt (List.forall_mem_cons.mpr
            ⟨hlt, fun f hf => String.lt_trans hlt (ha f hf)⟩)
          cases ((find?_cons_self b more).symm.trans (e b.1).symm).trans hnone
        · have hnone := find?_of_lt (List.forall_mem_cons.mpr
            ⟨hlt, fun f hf => String.lt_trans hlt (hb f hf)⟩)
          cases ((find?_cons_self a rest).symm.trans (e a.1)).trans hnone
      have hvalue : a.2 = b.2 := by
        have heq := (find?_cons_self a rest).symm.trans (e a.1)
        rw [hkey, find?_cons_self] at heq
        exact Option.some.inj heq
      have htail : rest = more := by
        refine ih hrest hmore fun key => ?_
        by_cases hk : a.1 = key
        · rw [find?_of_lt (hk ▸ ha), find?_of_lt (hk ▸ hkey ▸ hb)]
        · have heq := e key
          rwa [find?, if_neg hk, find?, if_neg (hkey ▸ hk)] at heq
      rw [htail, show a = b from Prod.ext hkey hvalue]

end Rill.Sorted
