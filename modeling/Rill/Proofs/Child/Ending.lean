import Rill.Proofs.Child

/-!
# The end of a program

Every pull of a program's output gives a text, and then the program goes on, or it is the end: an
error or nothing is given and nothing is left of the program (`Pulled`). Of what has ended nothing is
given any more, whatever happens to the interrupt (`pull_killed`), so the stream of a program ends
once and stays ended (`ends_once`). Without an interrupt the elements are those of
`exists_texts_of_reads`.

How a program ended is asked for where a pull finds the output at its end, or where it stops the
program. `pullCounted` is a pull that counts this; what is counted, and what dropping the program at
last would add to it, always comes to one (`askedFor_add_asks`).
-/

namespace Rill

/-- An output without end goes on by at least a byte at a time. -/
def Source.Productive : Source → Prop
  | .reads _ => True
  | .endless chunk _ period => 0 < chunk ∧ period ≠ []

/-- The first failure to read. -/
def Read.failure? : List Read → Option String
  | [] => none
  | .failed text :: _ => some text
  | .data _ :: rs | .interrupted :: rs => failure? rs

theorem Read.failure?_eq_none {rs : List Read} (h : ∀ text, .failed text ∉ rs) :
    failure? rs = none := by
  induction rs with
  | nil => rfl
  | cons r rs ih =>
    have hrs : ∀ text, .failed text ∉ rs := fun text hm => h text (List.mem_cons_of_mem _ hm)
    match r with
    | .data _ | .interrupted => exact ih hrs
    | .failed text => exact absurd List.mem_cons_self (h text)

namespace Child

variable {c c' : Child} {carry : List UInt8} {status : Option Status} {fuel : Nat}

/-! ## One pull -/

/-- What is left of the output, if it has no end, goes on by at least a byte at a time. -/
def Productive (c : Child) : Prop := ∀ s, c.source = some s → s.Productive

/-- How a pull of a program that ends with `status` can end: with a text, and the program goes on;
or the program is over, and there is an error or not. -/
inductive Pulled (status : Option Status) : Option Item × Child → Prop
  | text {t : String} {c : Child} (hs : c.status = status) (hp : c.Productive) :
    Pulled status (some (.ok (.string t)), c)
  | failed (text : String) : Pulled status (some (.error (.execRead text)), killed)
  | status {s : Status} (h : status = some s) (hs : s.isSuccess = false) :
    Pulled status (some (.error (.nonZeroStatus s.code)), killed)
  | ended : Pulled status (none, killed)

theorem pulled_reap : Pulled status (reap ⟨none, [], status⟩) := by
  cases status with
  | none => exact .ended
  | some s =>
    show Pulled _ (if s.isSuccess then none else some (.error (.nonZeroStatus s.code)), killed)
    split
    · exact .ended
    · rename_i hs
      exact .status rfl (Bool.eq_false_iff.mpr hs)

theorem pulled_finish : Pulled status (finish ⟨none, carry, status⟩) := by
  rw [finish]
  split
  · rename_i hc
    obtain rfl := List.isEmpty_iff.mp hc
    exact pulled_reap
  · refine .text rfl ?_
    rintro _ ⟨⟩

theorem Pulled.of_none (h : Pulled status (none, c)) : c = killed := by
  cases h with
  | ended => rfl

/-- There is fuel enough to come to a text or to the end: an attempt for every read, or for every
byte of a character. -/
def Enough (fuel : Nat) (carry : List UInt8) : Source → Prop
  | .reads rs => rs.length < fuel
  | .endless chunk _ period => (0 < chunk ∧ period ≠ []) ∧ 0 < fuel ∧ 5 ≤ fuel + carry.length

theorem length_fill {period : List UInt8} (h : period ≠ []) (n : Nat) (pending : List UInt8) :
    n ≤ (Source.fill period n pending).length := by
  have hlt := Nat.lt_mul_div_succ n (List.length_pos_of_ne_nil h)
  rw [Source.fill, List.length_append, List.length_flatten, List.map_replicate,
    List.sum_replicate_nat, Nat.mul_comm]
  omega

/-- An output without end always has another byte. -/
theorem next_endless {chunk : Nat} {period : List UInt8} (hc : 0 < chunk) (hp : period ≠ [])
    (pending : List UInt8) : ∃ bytes pending', bytes ≠ [] ∧
      (Source.endless chunk pending period).next =
        some (.data bytes, .endless chunk pending' period) := by
  refine ⟨_, _, ?_, rfl⟩
  rw [Ne, List.take_eq_nil_iff, not_or, ← List.length_eq_zero_iff]
  have hfill := length_fill hp chunk pending
  split <;> omega

/-- Bytes that were read give a text, or are carried along. -/
theorem pulled_data {bytes : List UInt8} {source source' : Source}
    (hn : source.next = some (.data bytes, source')) (hp : source'.Productive)
    (h : (Text.Utf8.decode (carry ++ bytes)).1 = [] →
      Pulled status (pullWithin fuel ⟨some source', carry ++ bytes, status⟩)) :
    Pulled status (pullWithin (fuel + 1) ⟨some source, carry, status⟩) := by
  simp only [pullWithin, hn]
  split
  · rename_i ht
    have ht := List.isEmpty_iff.mp ht
    rw [Text.Utf8.decode_snd_of_fst ht]
    exact h ht
  · refine .text rfl ?_
    rintro _ ⟨⟩
    exact hp

theorem pulled_within {source : Source} (h : Enough fuel carry source) :
    Pulled status (pullWithin fuel ⟨some source, carry, status⟩) := by
  -- on the fuel: an attempt that gives no text uses up a read, or adds a byte to what is carried
  induction fuel generalizing carry source with
  | zero =>
    cases source with
    | reads rs => cases h
    | endless chunk pending period => cases h.2.1
  | succ fuel ih =>
    match source with
    | .reads [] => exact pulled_finish
    | .reads (.interrupted :: rs) => exact ih (Nat.lt_of_succ_lt_succ h)
    | .reads (.failed text :: rs) => exact .failed text
    | .reads (.data bytes :: rs) =>
      exact pulled_data rfl trivial fun _ => ih (Nat.lt_of_succ_lt_succ h)
    | .endless chunk pending period =>
      obtain ⟨⟨hc, hp⟩, -, hfuel⟩ := h
      obtain ⟨bytes, pending', hne, hn⟩ := next_endless hc hp pending
      refine pulled_data hn ⟨hc, hp⟩ fun ht => ih ⟨⟨hc, hp⟩, ?_⟩
      have hshort := Text.Utf8.length_decode_snd (carry ++ bytes)
      have hpos := List.length_pos_of_ne_nil hne
      rw [Text.Utf8.decode_snd_of_fst ht] at hshort
      rw [List.length_append] at hshort ⊢
      omega

/-- Every pull gives a text, or is the last that can give anything. -/
theorem pulled_pull (hp : c.Productive) (interrupt : Bool) :
    Pulled c.status (c.pull interrupt) := by
  obtain ⟨source, carry, status⟩ := c
  cases interrupt with
  | true => exact .ended
  | false =>
    match source with
    | none => exact pulled_finish
    | some (.reads rs) => exact pulled_within (Nat.lt_succ_of_lt rs.length.lt_succ_self)
    | some (.endless chunk pending period) =>
      have henough : Enough 6 carry (.endless chunk pending period) :=
        ⟨hp _ rfl, by decide, by omega⟩
      exact pulled_within henough

/-- Of what is over nothing is left. -/
theorem pull_killed (interrupt : Bool) : killed.pull interrupt = (none, killed) := by
  cases interrupt <;> rfl

/-! ## Pulls one after the other -/

/-- The program after so many pulls. `signals` says which of them find the interrupt set. -/
def after (signals : Nat → Bool) (c : Child) : Nat → Child
  | 0 => c
  | n + 1 => ((after signals c n).pull (signals n)).2

/-- What each pull gives. -/
def given (signals : Nat → Bool) (c : Child) (n : Nat) : Option Item :=
  ((after signals c n).pull (signals n)).1

variable {signals : Nat → Bool} {n k : Nat} {xs : List Item}

theorem Pulled.productive {r : Option Item × Child} (h : Pulled status r) : r.2.Productive := by
  cases h with
  | text _ hp => exact hp
  | failed _ | status _ _ | ended => nofun

theorem productive_after (hp : c.Productive) (n : Nat) : (after signals c n).Productive := by
  induction n with
  | zero => exact hp
  | succ n ih => exact (pulled_pull ih _).productive

theorem pulled_given (hp : c.Productive) (n : Nat) :
    Pulled (after signals c n).status (given signals c n, after signals c (n + 1)) :=
  pulled_pull (productive_after hp n) _

/-- What is over gives nothing. -/
theorem given_of_killed (h : after signals c n = killed) (hk : n ≤ k) :
    given signals c k = none := by
  have hafter : after signals c k = killed := by
    induction hk with
    | refl => exact h
    | step _ ih => rw [after, ih, pull_killed]
  rw [given, hafter, pull_killed]

/-- A pull that gives nothing is followed by no other. -/
theorem given_of_none (hp : c.Productive) (h : given signals c n = none) (hk : n ≤ k) :
    given signals c k = none := by
  obtain rfl | hk := Nat.eq_or_lt_of_le hk
  · exact h
  · exact given_of_killed (Pulled.of_none (h ▸ pulled_given hp n)) hk

/-- What is given is a text, or the last element. -/
theorem given_cases (hp : c.Productive) {x : Item} (h : given signals c n = some x) :
    (∃ t, x = .ok (.string t)) ∨ ∃ e, x = .error e ∧ given signals c (n + 1) = none := by
  have hpulled : Pulled _ (given signals c n, _) := pulled_given hp n
  rw [h] at hpulled
  generalize hd : after signals c (n + 1) = d at hpulled
  cases hpulled with
  | text _ _ => exact .inl ⟨_, rfl⟩
  | failed _ | status _ _ => exact .inr ⟨_, rfl, given_of_killed hd (Nat.le_refl _)⟩

/-- The pulls after the first. -/
theorem given_succ (n : Nat) : given signals c (n + 1) =
    given (fun k => signals (k + 1)) (c.pull (signals 0)).2 n := by
  have hafter : after signals c (n + 1) =
      after (fun k => signals (k + 1)) (c.pull (signals 0)).2 n := by
    induction n with
    | zero => rfl
    | succ n ih => rw [after, ih, after]
  rw [given, hafter, given]

/-- Pulls that find no interrupt give the elements of the program. -/
theorem Gives.given (h : Gives c xs) (hp : c.Productive) (hs : ∀ n, signals n = false) (n : Nat) :
    given signals c n = xs[n]? := by
  induction h generalizing signals n with
  | nil h =>
    refine given_of_none hp ?_ n.zero_le
    rw [Child.given, after, hs, h]
  | @cons c c' x xs h _ ih =>
    match n with
    | 0 => rw [Child.given, after, hs, h, List.getElem?_cons_zero]
    | n + 1 =>
      have hc' : c'.Productive := by
        have hpulled := (pulled_pull hp false).productive
        rwa [h] at hpulled
      rw [given_succ, hs, h, List.getElem?_cons_succ, ih hc' (fun k => hs (k + 1))]

/-! ## The elements of a program -/

/-- What comes after the texts: that reading failed, or how the program ended. -/
def lastItems (status : Option Status) (rs : List Read) : List Item :=
  match Read.failure? rs with
  | some text => [.error (.execRead text)]
  | none => endItems status

/-- The elements are texts, and then that reading failed, or how the program ended. -/
theorem exists_texts_of_reads (status : Option Status) (rs : List Read) (carry : List UInt8) :
    ∃ texts : List String, Gives ⟨some (.reads rs), carry, status⟩
      (texts.map (.ok <| .string ·) ++ lastItems status rs) := by
  induction rs generalizing carry with
  | nil =>
    have hend : Tells ⟨some (.reads []), carry, status⟩ status _ := tells_end
    obtain ⟨texts, h, -⟩ := hend
    exact ⟨texts, h⟩
  | cons r rs ih =>
    match r with
    | .interrupted =>
      obtain ⟨texts, h⟩ := ih carry
      exact ⟨texts, h.of_pull pull_interrupted⟩
    | .failed text =>
      exact ⟨[], .cons rfl (.nil (pull_killed false))⟩
    | .data bytes =>
      obtain ⟨texts, h⟩ := ih (Text.Utf8.decode (carry ++ bytes)).2
      have hpull := @pull_data carry status rs bytes
      by_cases ht : (Text.Utf8.decode (carry ++ bytes)).1.isEmpty = true
      · exact ⟨texts, h.of_pull (hpull.trans (if_pos ht))⟩
      · exact ⟨_ :: texts, .cons (hpull.trans (if_neg ht)) h⟩

/-- There is an error in the end if and only if the program did not end well. -/
theorem error_mem_iff {texts : List String} {s : Status} {e : Error} :
    .error e ∈ texts.map (.ok <| .string ·) ++ endItems (some s) ↔
      s.isSuccess = false ∧ e = .nonZeroStatus s.code := by
  rw [List.mem_append, or_iff_right (by simp), endItems]
  split
  · rename_i hs
    simp [hs]
  · rename_i hs
    simp [hs]

/-! ## How often the end is asked for -/

/-- How often it is asked how the program ended if that is asked now: once, unless it was asked
before. Dropping a program asks too. -/
def asks (c : Child) : Nat := if c.status.isSome then 1 else 0

/-- `finish`, and how often it is asked how the program ended. -/
def finishCounted (c : Child) : (Option Item × Child) × Nat :=
  if c.carry.isEmpty then (c.reap, c.asks) else (c.finish, 0)

/-- `pullWithin`, and how often it is asked how the program ended. -/
def pullWithinCounted : Nat → Child → (Option Item × Child) × Nat
  | 0, c => ((none, c), 0)
  | fuel + 1, c =>
    match c.source with
    | none => c.finishCounted
    | some source =>
      match source.next with
      | none => { c with source := none }.finishCounted
      | some (.interrupted, source) => pullWithinCounted fuel { c with source := some source }
      | some (.failed text, _) => ((some (.error (.execRead text)), killed), c.asks)
      | some (.data bytes, source) =>
        let (text, carry) := Text.Utf8.decode (c.carry ++ bytes)
        let c := { c with source := some source, carry := carry }
        if text.isEmpty then pullWithinCounted fuel c
        else ((some (.ok (.string (String.ofList text))), c), 0)

/-- `pull`, and how often it is asked how the program ended. -/
def pullCounted (interrupt : Bool) (c : Child) : (Option Item × Child) × Nat :=
  if interrupt then ((none, killed), c.asks)
  else pullWithinCounted ((c.source.map Source.attempts).getD 0 + 1) c

/-- How often it is asked in so many pulls how the program ended. -/
def askedFor (signals : Nat → Bool) (c : Child) : Nat → Nat
  | 0 => 0
  | n + 1 => askedFor signals c n + ((after signals c n).pullCounted (signals n)).2

theorem finishCounted_fst (c : Child) : c.finishCounted.1 = c.finish := by
  rw [finishCounted, finish]
  split <;> rfl

theorem pullWithinCounted_fst (fuel : Nat) (c : Child) :
    (pullWithinCounted fuel c).1 = pullWithin fuel c := by
  fun_induction pullWithin fuel c with
  | case1 c => rfl
  | case2 fuel c hs => simp only [pullWithinCounted, hs, finishCounted_fst]
  | case3 fuel c source hs hn => simp only [pullWithinCounted, hs, hn, finishCounted_fst]
  | case4 fuel c source hs source' hn ih => simp only [pullWithinCounted, hs, hn, ih]
  | case5 fuel c source hs text source' hn => simp only [pullWithinCounted, hs, hn]
  | case6 fuel c source hs bytes source' hn text carry' hd d ht ih =>
    simp only [pullWithinCounted, hs, hn, hd, ht, ↓reduceIte]
    exact ih
  | case7 fuel c source hs bytes source' hn text carry' hd d ht =>
    simp only [pullWithinCounted, hs, hn, hd, ht]
    rfl

/-- A pull that counts is a pull. -/
theorem pullCounted_fst (interrupt : Bool) (c : Child) :
    (c.pullCounted interrupt).1 = c.pull interrupt := by
  rw [pullCounted, pull]
  split
  · rfl
  · exact pullWithinCounted_fst _ c

/-- What is asked is not asked again: it is asked in `finish`, or can be asked afterwards. -/
theorem asks_finishCounted (c : Child) : c.finishCounted.2 + c.finishCounted.1.2.asks = c.asks := by
  rw [finishCounted]
  split
  · obtain ⟨source, carry, _ | s⟩ := c <;> rfl
  · rename_i hc
    rw [finish, if_neg hc]
    exact Nat.zero_add _

theorem asks_pullWithinCounted (fuel : Nat) (c : Child) :
    (pullWithinCounted fuel c).2 + (pullWithinCounted fuel c).1.2.asks = c.asks := by
  fun_induction pullWithinCounted fuel c with
  | case1 c => exact Nat.zero_add _
  | case2 fuel c hs => exact asks_finishCounted c
  | case3 fuel c source hs hn => exact asks_finishCounted { c with source := none }
  | case4 fuel c source hs source' hn ih => exact ih
  | case5 fuel c source hs text source' hn => rfl
  | case6 fuel c source hs bytes source' hn text carry' hd d ht ih => exact ih
  | case7 fuel c source hs bytes source' hn text carry' hd d ht => exact Nat.zero_add _

theorem asks_pullCounted (interrupt : Bool) (c : Child) :
    (c.pullCounted interrupt).2 + (c.pull interrupt).2.asks = c.asks := by
  rw [← pullCounted_fst, pullCounted]
  split
  · rfl
  · exact asks_pullWithinCounted _ c

/-- It is asked once how the program ended: in one of the pulls, or when it is dropped at last. -/
theorem askedFor_add_asks (n : Nat) :
    askedFor signals c n + (after signals c n).asks = c.asks := by
  induction n with
  | zero => exact Nat.zero_add _
  | succ n ih =>
    have hpull := asks_pullCounted (signals n) (after signals c n)
    rw [askedFor, after]
    omega

/-! ## Once and for all -/

/-- The stream of a program ends once and stays ended, whichever pulls find the interrupt set. It
gives texts, and then at most one error, after which it gives nothing; once it has given nothing, or
a pull has found the interrupt set, it never gives anything again. If no pull finds it set, a finite
output comes to an end, and if no attempt to read failed, there is an error if and only if the
program did not end well. It is asked once how the program ended. -/
theorem ends_once {source : Source} (hp : source.Productive) (status : Status)
    (signals : Nat → Bool) :
    let c : Child := ⟨some source, [], some status⟩
    let item := given signals c
    (∀ n x, item n = some x →
      (∃ t, x = .ok (.string t)) ∨ ∃ e, x = .error e ∧ item (n + 1) = none) ∧
    (∀ n, item n = none → ∀ k, n ≤ k → item k = none) ∧
    (∀ n, signals n = true → ∀ k, n ≤ k → item k = none) ∧
    (∀ rs, source = .reads rs → (∀ n, signals n = false) →
      (∃ n, item n = none) ∧
      ((∀ text, .failed text ∉ rs) →
        ((∃ n e, item n = some (.error e)) ↔ status.isSuccess = false) ∧
        ∀ n e, item n = some (.error e) → e = .nonZeroStatus status.code)) ∧
    ∀ n, askedFor signals c n + (after signals c n).asks = 1 := by
  intro c item
  have hc : c.Productive := by
    rintro _ ⟨⟩
    exact hp
  refine ⟨fun n x => given_cases hc, fun n h k hk => given_of_none hc h hk, fun n h k hk => ?_, ?_,
    fun n => askedFor_add_asks n⟩
  · refine given_of_none hc ?_ hk
    show (pull (signals n) _).1 = none
    rw [h]
    rfl
  · rintro rs rfl hs
    obtain ⟨texts, h⟩ := exists_texts_of_reads (some status) rs []
    have hitem (n : Nat) : item n = _ := h.given hc hs n
    refine ⟨⟨_, (hitem _).trans (List.getElem?_eq_none (Nat.le_refl _))⟩, fun hrs => ?_⟩
    rw [lastItems, Read.failure?_eq_none hrs] at hitem
    constructor
    · constructor
      · rintro ⟨n, e, he⟩
        rw [hitem] at he
        exact (error_mem_iff.mp (List.mem_of_getElem? he)).1
      · intro hstatus
        obtain ⟨n, he⟩ := List.mem_iff_getElem?.mp (error_mem_iff.mpr ⟨hstatus, rfl⟩)
        exact ⟨n, _, (hitem n).trans he⟩
    · intro n e he
      rw [hitem] at he
      exact (error_mem_iff.mp (List.mem_of_getElem? he)).2

/-- A program that writes without end, when its third element is interrupted and no other; and one
that ends with `3` after a character was cut by a signal. -/
theorem ends_once_interrupted :
    let endless : Child := ⟨some (.endless 2 [] [0x79, 0x0a]), [], some (.exited 0)⟩
    let cut : Child :=
      ⟨some (.reads [.data [0xc3], .interrupted, .data [0xa9]]), [], some (.exited 3)⟩
    let third := fun n => n == 2
    let never := fun _ => false
    given third endless 1 = some (.ok (.string "y\n")) ∧
    (∀ k, 2 ≤ k → given third endless k = none) ∧
    given never cut 0 = some (.ok (.string "é")) ∧
    given never cut 1 = some (.error (.nonZeroStatus 3)) ∧
    (∀ k, 2 ≤ k → given never cut k = none) ∧
    askedFor never cut 1 = 0 ∧ askedFor never cut 2 = 1 := by
  intro endless cut third never
  have hendless := @ends_once (.endless 2 [] [0x79, 0x0a]) ⟨by decide, by decide⟩ (.exited 0) third
  have hcut := @ends_once (.reads [.data [0xc3], .interrupted, .data [0xa9]]) trivial (.exited 3)
    never
  have herror : given never cut 1 = some (.error (.nonZeroStatus 3)) := rfl
  refine ⟨rfl, hendless.2.2.1 2 rfl, rfl, herror, hcut.2.1 2 ?_, rfl, rfl⟩
  obtain ⟨t, ⟨⟩⟩ | ⟨e, -, hnone⟩ := hcut.1 1 _ herror
  exact hnone

end Child

end Rill
