import Rill.Child
import Rill.Proofs.Text.Utf8

/-!
# The output of a program

How the output of a program is cut into reads does not show: whatever the reads are, the texts that
the program gives make up the decoding of the whole output, none of them is empty, and the end of
the program follows them (`Child.exists_texts_of_splits`). One read at a time, `Child.pull_data`
says what is given now and what is carried over, and `Text.Utf8.lossy_append` that nothing is lost
by it.
-/

namespace Rill

/-- The reads cut `bytes` into parts, none of them empty; a signal may come between any two. -/
inductive Read.Splits : List UInt8 → List Read → Prop
  | nil : Splits [] []
  | interrupted {bytes : List UInt8} {rs : List Read} :
    Splits bytes rs → Splits bytes (.interrupted :: rs)
  | data {part bytes : List UInt8} {rs : List Read} (h : part ≠ []) :
    Splits bytes rs → Splits (part ++ bytes) (.data part :: rs)

/-- Cutting after every `n` bytes is one way. -/
theorem Read.splits_chunked {n : Nat} (hn : 0 < n) (fuel : Nat) (bytes : List UInt8)
    (h : bytes.length ≤ fuel) : Splits bytes ((Source.chunked n fuel bytes).map .data) := by
  induction fuel generalizing bytes with
  | zero =>
    obtain rfl := List.eq_nil_of_length_eq_zero (Nat.le_zero.mp h)
    exact .nil
  | succ fuel ih =>
    match bytes, h with
    | [], _ => exact .nil
    | b :: bs, h =>
      have hlen : ((b :: bs).drop n).length ≤ fuel := by
        rw [List.length_drop]
        omega
      have hne : (b :: bs).take n ≠ [] := by
        rw [Ne, List.take_eq_nil_iff]
        simp only [reduceCtorEq, or_false]
        omega
      have hs := Splits.data hne (ih _ hlen)
      rwa [List.take_append_drop] at hs

namespace Child

variable {carry bytes : List UInt8} {status : Option Status} {rs : List Read} {c c' : Child}

/-- The elements of a program that is not interrupted. -/
inductive Gives : Child → List Item → Prop
  | nil {c c' : Child} (h : c.pull false = (none, c')) : Gives c []
  | cons {c c' : Child} {x : Item} {xs : List Item} (h : c.pull false = (some x, c'))
    (k : Gives c' xs) : Gives c (x :: xs)

/-- What a program that has ended adds to its output. -/
def endItems : Option Status → List Item
  | some s => if s.isSuccess then [] else [.error (.nonZeroStatus s.code)]
  | none => []

theorem Gives.of_pull {xs : List Item} (h : c.pull false = c'.pull false) (k : Gives c' xs) :
    Gives c xs := by
  cases k with
  | nil k => exact .nil (h.trans k)
  | cons k ks => exact .cons (h.trans k) ks

/-! ## One pull -/

theorem pull_interrupted :
    pull false ⟨some (.reads (.interrupted :: rs)), carry, status⟩ =
      pull false ⟨some (.reads rs), carry, status⟩ := rfl

theorem pull_data {part : List UInt8} :
    pull false ⟨some (.reads (.data part :: rs)), carry, status⟩ =
      let text := (Text.Utf8.decode (carry ++ part)).1
      let after : Child := ⟨some (.reads rs), (Text.Utf8.decode (carry ++ part)).2, status⟩
      if text.isEmpty then pull false after
      else (some (.ok (.string (String.ofList text))), after) := rfl

theorem pull_end :
    pull false ⟨some (.reads []), carry, status⟩ = finish ⟨none, carry, status⟩ := rfl

theorem pull_ended : pull false ⟨none, carry, status⟩ = finish ⟨none, carry, status⟩ := rfl

/-! ## All pulls -/

theorem gives_reap : Gives ⟨none, [], status⟩ (endItems status) := by
  have hnone : Gives ⟨none, [], none⟩ [] := .nil pull_ended
  cases status with
  | none => exact hnone
  | some s =>
    have hpull : pull false ⟨none, [], some s⟩ =
        (if s.isSuccess then none else some (.error (.nonZeroStatus s.code)), ⟨none, [], none⟩) :=
      rfl
    rw [endItems]
    split at hpull
    · rename_i hs
      exact if_pos hs ▸ .nil hpull
    · rename_i hs
      exact if_neg hs ▸ .cons hpull hnone

/-- The elements are some texts, none of them empty, that make up `text`, and what the end adds. -/
def Tells (c : Child) (status : Option Status) (text : List Char) : Prop :=
  ∃ texts : List String,
    Gives c (texts.map (.ok <| .string ·) ++ endItems status) ∧
    "" ∉ texts ∧ String.join texts = String.ofList text

theorem Tells.of_pull {text : List Char} (h : c.pull false = c'.pull false)
    (k : Tells c' status text) : Tells c status text := by
  obtain ⟨texts, hg, hne, hj⟩ := k
  exact ⟨texts, hg.of_pull h, hne, hj⟩

theorem Tells.cons {text texts : List Char} (ht : text ≠ [])
    (h : c.pull false = (some (.ok (.string (String.ofList text))), c'))
    (k : Tells c' status texts) : Tells c status (text ++ texts) := by
  obtain ⟨ts, hg, hne, hj⟩ := k
  refine ⟨String.ofList text :: ts, .cons h hg, ?_, ?_⟩
  · rw [List.mem_cons, not_or]
    exact ⟨fun he => ht (by simpa using congrArg String.toList he.symm), hne⟩
  · rw [String.join_cons, hj, String.ofList_append]

/-- What is carried when the output has ended is decoded as it is. -/
theorem tells_end : Tells ⟨some (.reads []), carry, status⟩ status (Text.Utf8.lossy carry) := by
  have hreap : Tells ⟨none, [], status⟩ status [] := ⟨[], gives_reap, by simp, rfl⟩
  by_cases hc : carry = []
  · subst hc
    exact hreap.of_pull (pull_end.trans pull_ended.symm)
  · have hpull : pull false ⟨some (.reads []), carry, status⟩ =
        (some (.ok (.string (Text.Utf8.lossyText carry))), ⟨none, [], status⟩) := by
      rw [pull_end, finish, if_neg (by simpa using hc)]
    simpa using Tells.cons (Text.Utf8.lossy_ne_nil hc) hpull hreap

/-- The texts of any reads make up the decoding of what was carried and of all that is read. -/
theorem tells_reads (h : Read.Splits bytes rs) (carry : List UInt8) :
    Tells ⟨some (.reads rs), carry, status⟩ status (Text.Utf8.lossy (carry ++ bytes)) := by
  induction h generalizing carry with
  | nil => exact (List.append_nil carry).symm ▸ tells_end
  | interrupted _ ih => exact (ih carry).of_pull pull_interrupted
  | @data part bytes rs _ _ ih =>
    have hrest := ih (Text.Utf8.decode (carry ++ part)).2
    rw [← List.append_assoc, Text.Utf8.lossy_append]
    by_cases ht : (Text.Utf8.decode (carry ++ part)).1 = []
    · rw [ht, List.nil_append]
      exact hrest.of_pull (by simp only [pull_data, ht, List.isEmpty_nil, ↓reduceIte])
    · exact hrest.cons ht (by simp [pull_data, ht])

/-- However the output of a program is cut into reads, its texts make up the one decoding of the
whole output, no text is empty, and then comes the end; reads of any size cut the output so. -/
theorem exists_texts_of_splits (status : Status) (bytes : List UInt8) :
    (∀ rs, Read.Splits bytes rs →
      ∃ texts : List String,
        Gives ⟨some (.reads rs), [], some status⟩
          (texts.map (.ok <| .string ·) ++ endItems (some status)) ∧
        "" ∉ texts ∧ String.join texts = Text.Utf8.lossyText bytes ∧
        Text.Utf8.Lossy bytes (String.join texts).toList) ∧
    ∀ (chunk : Nat) (e : Execution), e.output = .finite bytes → e.status = status →
      ∃ rs, start chunk e = ⟨some (.reads rs), [], some status⟩ ∧ Read.Splits bytes rs := by
  constructor
  · intro rs h
    have htells : Tells ⟨some (.reads rs), [], some status⟩ (some status)
        (Text.Utf8.lossy ([] ++ bytes)) := tells_reads h []
    obtain ⟨texts, hg, hne, hj⟩ := htells
    refine ⟨texts, hg, hne, hj, ?_⟩
    rw [hj, String.toList_ofList, List.nil_append]
    exact Text.Utf8.lossy_iff.mpr rfl
  · rintro chunk e ho rfl
    refine ⟨_, ?_, Read.splits_chunked (n := max 1 chunk) (by omega) bytes.length bytes (by omega)⟩
    rw [start, ho]
    rfl

/-- A character cut between two reads with a signal between them, one that cannot go on, and one
that the output ends in. -/
theorem exists_texts_of_cut_characters :
    (∃ texts : List String,
      Gives ⟨some (.reads [.data [0x61, 0xc3], .interrupted, .data [0xa9, 0xe2], .data [0x82],
          .data [0x41, 0xf0, 0x9f]]), [], some (.exited 3)⟩
        (texts.map (.ok <| .string ·) ++ [.error (.nonZeroStatus 3)]) ∧
      "" ∉ texts ∧ String.join texts = "aé\ufffdA\ufffd" ∧
      Text.Utf8.Lossy [0x61, 0xc3, 0xa9, 0xe2, 0x82, 0x41, 0xf0, 0x9f] (String.join texts).toList) ∧
    ∃ rs, start 1 ⟨.finite [0xc3, 0xa9], [], .exited 3, []⟩ =
        ⟨some (.reads rs), [], some (.exited 3)⟩ ∧ Read.Splits [0xc3, 0xa9] rs :=
  ⟨(exists_texts_of_splits (.exited 3) _).1 _
      (.data (by decide) (.interrupted (.data (by decide) (.data (by decide)
        (.data (by decide) .nil))))),
    (exists_texts_of_splits (.exited 3) _).2 1 _ rfl rfl⟩

end Child

end Rill
