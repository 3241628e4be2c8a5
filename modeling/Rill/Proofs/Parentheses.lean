import Rill.Proofs.Broadcast
import Rill.Proofs.Choice
import Rill.Proofs.Closure.Keeping

/-!
# Parentheses around a scalar

An operand between parentheses is itself if it is a value, and a stream otherwise
(`Operand.grouped`). An operator broadcasts a value over a stream but pairs two streams, so that
parentheses can cut what an operator makes of a stream and a value that was not known when they were
closed. `grouped_scalar` says how far: an operator on a scalar between parentheses and one on the
scalar itself start alike, and then the first of them has ended (`Stops`); and they give the same
stream if the scalar was known, or is a stream itself, or the other side has no second element.
-/

namespace Rill

variable {context : Context} {scope : Scope} {op : Operator} {w w' : World} {v : Value}
  {item : Option Item} {s t r l l' : Stream}

/-! ## What is left -/

/-- Wherever pulling `s` ends, `t` has ended. -/
def Stops (context : Context) (s t : Stream) : Prop :=
  ∀ w item s' w', Pulls context s w item s' w' → ∃ t' w'', Pulls context t w none t' w''

theorem Delivers.stops (h : Delivers context t []) (s : Stream) : Stops context s t :=
  fun w _ _ _ _ => (h.head w).imp fun _ h => ⟨w, h⟩

theorem Delivers.zip_nil (h : Delivers context l []) (op : Operator) (r : Stream) :
    Delivers context (.zip op l r .empty) [] := by
  cases h with
  | nil h => exact .nil fun w => pulls_zip.mpr (.leftDone pulls_empty (h w))

/-- A stream beside one that has ended gives nothing, but it is pulled. -/
theorem pulls_zip_ended (h : Delivers context l []) {r' : Stream}
    (k : Pulls context r w item r' w') :
    Pulls context (.zip op r l .empty) w none (.zip op .empty .empty .empty) w' := by
  cases item with
  | none => exact pulls_zip.mpr (.leftDone pulls_empty k)
  | some x =>
    obtain ⟨l', h⟩ := h.head w'
    exact pulls_zip.mpr (.rightDone pulls_empty k h)

theorem pulls_of_flatMap {f : Transform} (p : Pulls context (.flatMap f r .empty) w item s w') :
    ∃ i r' u, Pulls context r w i r' u := by
  obtain h | ⟨h, i⟩ | ⟨h, i, -⟩ | ⟨h, i, -, -⟩ := pulls_flatMap.mp p
  · cases (h.det pulls_empty).1
  all_goals
    obtain ⟨-, -, rfl⟩ := h.det pulls_empty
    exact ⟨_, _, _, i⟩

theorem pulls_of_zip (p : Pulls context (.zip op r l .empty) w item s w') :
    ∃ i r' u, Pulls context r w i r' u := by
  obtain h | ⟨h, i⟩ | ⟨h, i, -⟩ | ⟨h, i, -, -⟩ := pulls_zip.mp p
  · cases (h.det pulls_empty).1
  all_goals
    obtain ⟨-, -, rfl⟩ := h.det pulls_empty
    exact ⟨_, _, _, i⟩

/-- A stream cannot tell what has ended beside it. -/
theorem Alike.zip_ended (h : Delivers context l []) (k : Delivers context l' []) (op : Operator)
    (r : Stream) : Alike context (.zip op r l .empty) (.zip op r l' .empty) := by
  have hstep {l l' : Stream} (h : Delivers context l []) (k : Delivers context l' []) {w w' : World}
      {item : Option Item} {s : Stream} (p : Pulls context (.zip op r l .empty) w item s w') :
      ∃ t, Pulls context (.zip op r l' .empty) w item t w' ∧ (item.isSome → Alike context s t) := by
    obtain ⟨i, r', u, q⟩ := pulls_of_zip p
    obtain ⟨rfl, -, rfl⟩ := p.det (pulls_zip_ended h q)
    exact ⟨_, pulls_zip_ended k q, nofun⟩
  refine .of_pulls fun w => ⟨fun _ _ _ p => hstep h k p, fun _ _ _ p => ?_⟩
  obtain ⟨s, q, hs⟩ := hstep k h p
  exact ⟨s, q, fun hi => (hs hi).symm⟩

namespace Ready

variable {side : Side} {a : Ready} {f g : Factory}

/-- Beside what is left of a stream, a stream that was one value has ended. -/
theorem Rest.stops (h : a.Rest context side op r s) (k : (lazy f).Rest context side op r t) :
    Stops context s t := by
  cases side with
  | left =>
    obtain ⟨l, hl, rfl⟩ := k
    exact (hl.zip_nil op r).stops s
  | right =>
    obtain ⟨l, hl, rfl⟩ := k
    have hpulled : ∀ w item s' w', Pulls context s w item s' w' →
        ∃ i r' u, Pulls context r w i r' u := by
      intro w item s' w' p
      cases a with
      | known v =>
        obtain rfl : s = _ := h
        exact pulls_of_flatMap p
      | lazy g =>
        obtain ⟨l, -, rfl⟩ := h
        exact pulls_of_zip p
    intro w item s' w' p
    obtain ⟨i, r', u, q⟩ := hpulled w item s' w' p
    exact ⟨_, u, pulls_zip_ended hl q⟩

/-- Two streams that were one value cannot be told apart any more. -/
theorem Rest.alike (h : (lazy f).Rest context side op r s)
    (k : (lazy g).Rest context side op r t) : Alike context s t := by
  cases side with
  | left =>
    obtain ⟨l, hl, rfl⟩ := h
    obtain ⟨l', hl', rfl⟩ := k
    exact (hl.zip_nil op r).alike (hl'.zip_nil op r)
  | right =>
    obtain ⟨l, hl, rfl⟩ := h
    obtain ⟨l', hl', rfl⟩ := k
    exact .zip_ended hl hl' op r

/-- Beside a stream that has ended nothing is left. -/
theorem Rest.ended (h : a.Rest context side op r s) (hr : Delivers context r []) :
    Delivers context s [] := by
  cases side with
  | left =>
    cases a with
    | known v =>
      obtain rfl : s = _ := h
      exact hr.flatMap_nil _
    | lazy f =>
      obtain ⟨l, hl, rfl⟩ := h
      exact hl.zip_nil op r
  | right =>
    cases a with
    | known v =>
      obtain rfl : s = _ := h
      exact hr.flatMap_nil _
    | lazy f =>
      obtain ⟨l, -, rfl⟩ := h
      exact hr.zip_nil op l

end Ready

/-! ## One value -/

namespace Operand

/-- The worlds that are passed while an operand is used, up to the first element. -/
inductive Passes (context : Context) (scope : Scope) (x : Operand) (w : World) : World → Prop
  /-- Nothing has happened. -/
  | start : Passes context scope x w w
  /-- The operand was forced. -/
  | forced {y : Operand} {u : World} (h : Forces context scope x w (.ok y) u) :
    Passes context scope x w u
  /-- The stream that it came to was made. -/
  | made {y : Operand} {f : Factory} {s : Stream} {u u' : World}
    (h : Forces context scope x w (.ok y) u) (e : y.ready? scope = some (.lazy f))
    (m : Makes context f .empty u s u') : Passes context scope x w u'
  /-- The first element was taken. -/
  | pulled {y : Operand} {f : Factory} {s s' : Stream} {item : Option Item} {u u' u'' : World}
    (h : Forces context scope x w (.ok y) u) (e : y.ready? scope = some (.lazy f))
    (m : Makes context f .empty u s u') (p : Pulls context s u' item s' u'') :
    Passes context scope x w u''

/-- Forcing an operand leaves the world alone, and gives what is `r` to an operator. -/
def Gives (context : Context) (scope : Scope) (x : Operand) (w : World) (r : Ready) : Prop :=
  ∃ y, Forces context scope x w (.ok y) w ∧ y.ready? scope = some r

/-- In each of the worlds an operand is the one value `v`, and it leaves the world alone. -/
def Yields (context : Context) (scope : Scope) (worlds : World → Prop) (v : Value)
    (x : Operand) : Prop :=
  ∀ w, worlds w → ∃ r, x.Gives context scope w r ∧ r.Yields context worlds v

/-- An operand comes to a stream, of which `s` is left after the first element. -/
def Leaves (context : Context) (scope : Scope) (x : Operand) (w : World) (s : Stream) : Prop :=
  ∃ y u f i u', Forces context scope x w (.ok y) u ∧ y.ready? scope = some (.lazy f) ∧
    Rill.FirstPulls context f .empty u (some i) s u'

end Operand

section

variable {side : Side} {worlds : World → Prop} {x y z f : Operand} {a : Ready} {g : Factory}

/-- An operand that is one value has a stream of this value alone. -/
theorem Operand.Gives.opens (h : x.Gives context scope w a) (ha : a.Yields context worlds v)
    (hv : v.kind ≠ .list) (hw : worlds w) :
    ∃ s s', Opens context scope x w s w ∧ Pulls context s w (some (.ok v)) s' w ∧
      Rill.Delivers context s' [] := by
  obtain ⟨y, hy, e⟩ := h
  suffices hs : ∃ s s', Opens context scope y w s w ∧ Pulls context s w (some (.ok v)) s' w ∧
      Rill.Delivers context s' [] by
    obtain ⟨s, s', o, k⟩ := hs
    exact ⟨s, s', hy.spec.2 s w o, k⟩
  have honce : Pulls context (.once v) w (some (.ok v)) .empty w :=
    pulls_items_cons.mpr ⟨⟨rfl, rfl⟩, rfl⟩
  match y with
  | .value c =>
    cases e
    obtain rfl : c = v := ha
    exact ⟨.once c, _, opens_value.mpr ⟨(ofValue_of_kind_ne_list hv).symm, rfl⟩, honce, .items []⟩
  | .word text =>
    rw [Operand.ready?] at e
    split at e
    · cases e
    · rename_i hvar
      cases e
      obtain rfl : .string text = v := ha
      exact ⟨_, _, opens_text (Bool.eq_false_iff.mpr hvar), honce, .items []⟩
  | .stream g =>
    cases e
    obtain ⟨s, hs, hpulls⟩ := ha w hw
    obtain ⟨s', k⟩ := hpulls w hw
    exact ⟨s, s', opens_stream.mpr hs, k⟩
  | .streamRef name =>
    cases e
    obtain ⟨s, hs, hpulls⟩ := ha w hw
    obtain ⟨s', k⟩ := hpulls w hw
    exact ⟨s, s', opens_streamRef.mpr hs, k⟩
  | .deferred d => cases e

/-- An operand between parentheses, which are a stage of their own. -/
def Operand.grouped (context : Context) (scope : Scope) (x : Operand) : Operand :=
  Stage.toOperand context { scope, operands := [x] }

theorem Operand.grouped_of_ne_value (h : ∀ c, x ≠ .value c) :
    x.grouped context scope = .stream (Stage.expression context scope [x]) := by
  cases x with
  | value c => exact absurd rfl (h c)
  | _ => rfl

/-- The stage of an operand that is one value, and no command, is a stream of the value alone. -/
theorem Operand.Yields.expression (hx : x.Yields context scope worlds v) (hv : v.kind ≠ .list)
    (hc : ¬ Stage.Commands context scope [x]) :
    (Stage.expression context scope [x]).Yields context worlds v := by
  obtain ⟨name, e, hexpression⟩ | hexpression := Stage.expression_of_not_commands hc
  · obtain rfl : x = .streamRef name := List.singleton_injective e
    rw [hexpression]
    intro w hw
    obtain ⟨a, ⟨y, hy, hready⟩, ha⟩ := hx w hw
    have hself : Forces context scope (.streamRef name) w (.ok (.streamRef name)) w :=
      forces_of_ready rfl
    obtain ⟨rfl⟩ : y = .streamRef name := Except.ok.inj (hy.det hself).1
    cases hready
    exact ha w hw
  · rw [hexpression]
    refine fun w _ => ⟨_, makes_sequence.mpr ⟨rfl, rfl⟩, fun w' hw' => ?_⟩
    obtain ⟨a, hgives, ha⟩ := hx w' hw'
    obtain ⟨s, s', o, p, hended⟩ := hgives.opens ha hv hw'
    refine ⟨_, pulls_concat_cons.mpr ⟨s, w', o, pulls_concat_nil.mpr ⟨s', p, rfl⟩⟩, ?_⟩
    exact .concat .nil hended

/-! ## On either side -/

theorem within_passes {r : Ready} {u : World} (h : Forces context scope f w (.ok z) u)
    (e : z.ready? scope = some r) : r.Within context (f.Passes context scope w) u := by
  cases r with
  | known c => trivial
  | lazy g => exact fun s u' m => ⟨.made h e m, fun _ _ _ p => .pulled h e m p⟩

/-- Two operands that are the same value, on a side of an operator: the operator starts alike, and
what is left is related if it is beside what is left of the same stream. -/
theorem matches_apply {R : Stream → Stream → Prop} (hop : op.isValueOp = true)
    (hx : x.Yields context scope (f.Passes context scope w) v)
    (hy : y.Yields context scope (f.Passes context scope w) v)
    (hended : ∀ s t, Delivers context s [] → Delivers context t [] → R s t)
    (hrest : ∀ u a b r s t, f.Passes context scope w u → x.Gives context scope u a →
      y.Gives context scope u b → f.Leaves context scope w r →
      a.Rest context side op r s → b.Rest context side op r t → R s t) :
    Matches R (Operand.FirstPulls context scope (side.apply scope op x f) w)
      (Operand.FirstPulls context scope (side.apply scope op y f) w) := by
  have hR : R .empty .empty := hended _ _ (.items []) (.items [])
  have hready {u₁ z u} (hu₁ : f.Passes context scope w u₁)
      (hz : Forces context scope f w (.ok z) u) : ∃ x' y',
      Forces context scope x u₁ (.ok x') u₁ ∧ Forces context scope y u₁ (.ok y') u₁ ∧
      Matches R (Operand.FirstPulls context scope (side.apply scope op x' z) u)
        (Operand.FirstPulls context scope (side.apply scope op y' z) u) := by
    obtain ⟨a, ⟨x', hx', hxa⟩, ha⟩ := hx u₁ hu₁
    obtain ⟨b, ⟨y', hy', hyb⟩, hb⟩ := hy u₁ hu₁
    obtain ⟨r, hr⟩ := hz.spec.1
    refine ⟨x', y', hx', hy', matches_of_ready hop hxa ha hyb hb hr (within_passes hz hr)
      (.forced hz) hended fun g i r' s t u' e p => ?_⟩
    exact hrest u₁ a b r' s t hu₁ ⟨x', hx', hxa⟩ ⟨y', hy', hyb⟩ ⟨z, u, g, i, u', hz, e ▸ hr, p⟩
  cases side with
  | left =>
    rw [Side.apply, Side.apply, firstPulls_binary, firstPulls_binary]
    obtain ⟨a, ⟨x', hx', -⟩, -⟩ := hx w .start
    obtain ⟨b, ⟨y', hy', -⟩, -⟩ := hy w .start
    rw [forced_of_forces hx', forced_of_forces hy']
    refine .forced hR fun z u hz => ?_
    obtain ⟨x'', y'', hx'', hy'', h⟩ := hready .start hz
    obtain ⟨⟨⟩, -⟩ := hx'.det hx''
    obtain ⟨⟨⟩, -⟩ := hy'.det hy''
    exact h
  | right =>
    rw [Side.apply, Side.apply, firstPulls_binary, firstPulls_binary]
    refine .forced hR fun z u hz => ?_
    obtain ⟨x', y', hx', hy', h⟩ := hready (.forced hz) hz
    rw [forced_of_forces hx', forced_of_forces hy']
    exact h

theorem gives_stream {u : World} (h : (Operand.stream g).Gives context scope u a) :
    a = .lazy g := by
  obtain ⟨y, hy, e⟩ := h
  obtain ⟨⟨⟩, -⟩ := hy.det forces_stream
  cases e
  rfl

theorem Operand.Yields.grouped (hx : x.Yields context scope worlds v) (hv : v.kind ≠ .list)
    (hc : ¬ Stage.Commands context scope [x]) (hne : ∀ c, x ≠ .value c) :
    (x.grouped context scope).Yields context scope worlds v := by
  rw [grouped_of_ne_value hne]
  exact fun u _ => ⟨_, ⟨_, forces_stream, rfl⟩, hx.expression hv hc⟩

/-- A scalar and the scalar between parentheses, on either side of a value operator, if the scalar
is no command and using the other side leaves it as it is. If it is not a value when the parentheses
are closed, the operator starts alike on both, and then the one with parentheses has ended. They
give the same stream if it is a value then, or comes to a stream later, or if nothing is left of the
other side after its first element. -/
theorem grouped_scalar (hop : op.isValueOp = true) (hc : ¬ Stage.Commands context scope [x])
    (hv : v.kind ≠ .list) (hx : x.Yields context scope (f.Passes context scope w) v) (side : Side) :
    ((∀ c, x ≠ .value c) →
      Matches (Stops context) (Operand.FirstPulls context scope (side.apply scope op x f) w)
        (Operand.FirstPulls context scope (side.apply scope op (x.grouped context scope) f) w)) ∧
    ((∃ c, x = .value c) ∨
        (∀ u c, f.Passes context scope w u → ¬ x.Gives context scope u (.known c)) ∨
        (∀ r, f.Leaves context scope w r → Delivers context r []) →
      Matches (Alike context) (Operand.FirstPulls context scope (side.apply scope op x f) w)
        (Operand.FirstPulls context scope (side.apply scope op (x.grouped context scope) f)
          w)) := by
  refine ⟨fun hne => ?_, fun h => ?_⟩
  · refine matches_apply hop hx (hx.grouped hv hc hne) (fun s t _ ht => ht.stops s)
      fun u a b r s t _ _ hb _ hs ht => ?_
    rw [Operand.grouped_of_ne_value hne] at hb
    obtain rfl := gives_stream hb
    exact hs.stops ht
  · by_cases hne : ∀ c, x ≠ .value c
    · refine matches_apply hop hx (hx.grouped hv hc hne) (fun _ _ hs ht => hs.alike ht)
        fun u a b r s t hu ha hb hr hs ht => ?_
      rw [Operand.grouped_of_ne_value hne] at hb
      obtain rfl := gives_stream hb
      obtain ⟨c, rfl⟩ | hstream | hone := h
      · exact absurd rfl (hne c)
      · cases a with
        | known c => exact absurd ha (hstream u c hu)
        | lazy g => exact hs.alike ht
      · exact (hs.ended (hone r hr)).alike (ht.ended (hone r hr))
    · -- a value between parentheses is the value
      obtain ⟨c, rfl⟩ := not_forall_not.mp hne
      exact .refl .refl _

end

/-! ## A parameter beside two truth values -/

/-- The elements `true` and `false`. -/
def truths : Operand := .stream (.items [.ok (.bool true), .ok (.bool false)])

/-- What depends on nothing has a stream that does not either. -/
theorem Means.made {f y : Operand} {m : Meaning} (h : Means context f m) {u u' : World}
    {g : Factory} {s : Stream} (hf : Forces context scope f w (.ok y) u)
    (e : y.ready? scope = some (.lazy g)) (hm : Makes context g .empty u s u') :
    u' = w ∧ ∃ xs, Delivers context s xs := by
  obtain ⟨⟨⟩, rfl⟩ := hf.det (h.forces w)
  cases h with
  | known v => cases e
  | @elements _ xs h =>
    cases e
    obtain ⟨s, hs, hd⟩ := h
    obtain ⟨rfl, rfl⟩ := hm.det (hs _)
    exact ⟨rfl, xs, hd⟩

/-- Using what depends on nothing leads nowhere. -/
theorem Means.passes {f : Operand} {m : Meaning} (h : Means context f m) {u : World}
    (hu : f.Passes context scope w u) : u = w := by
  cases hu with
  | start => rfl
  | forced hf => exact (hf.det (h.forces w)).2
  | made hf e hm => exact (h.made hf e hm).1
  | pulled hf e hm p =>
    obtain ⟨rfl, xs, hd⟩ := h.made hf e hm
    obtain ⟨s', k⟩ := hd.head _
    exact (p.det k).2.2

/-- `n && f` and `(n) && f` start alike, and `false && n` and `false && (n)` are the same. -/
theorem grouped_scalar_truths :
    Matches (Stops {})
      (Operand.FirstPulls {} .ofParameter (Side.left.apply .ofParameter .and (.word "n") truths)
        (.ofParameter (.bool true)))
      (Operand.FirstPulls {} .ofParameter
        (Side.left.apply .ofParameter .and ((Operand.word "n").grouped {} .ofParameter) truths)
        (.ofParameter (.bool true))) ∧
    Matches (Alike {})
      (Operand.FirstPulls {} .ofParameter
        (Side.right.apply .ofParameter .and (.word "n") (.value (.bool false)))
        (.ofParameter (.bool true)))
      (Operand.FirstPulls {} .ofParameter
        (Side.right.apply .ofParameter .and ((Operand.word "n").grouped {} .ofParameter)
          (.value (.bool false)))
        (.ofParameter (.bool true))) := by
  have hcommand : ¬ Stage.Commands {} .ofParameter [.word "n"] := fun h => nomatch h.1
  have hyields {f : Operand} {m : Meaning} (h : Means {} f m) : (Operand.word "n").Yields {}
      .ofParameter (f.Passes {} .ofParameter (.ofParameter (.bool true))) (.bool true) := by
    intro u hu
    obtain rfl := h.passes hu
    exact ⟨.known (.bool true), ⟨_, forces_word rfl, rfl⟩, rfl⟩
  have htruths : Means {} truths (.elements [.ok (.bool true), .ok (.bool false)]) :=
    .elements ⟨_, fun _ => makes_items.mpr ⟨rfl, rfl⟩, .items _⟩
  have hfalse : Means {} (.value (.bool false)) (.known (.bool false)) := .known _
  have hlist : (Value.bool true).kind ≠ .list := nofun
  refine ⟨(grouped_scalar rfl hcommand hlist (hyields htruths) .left).1 nofun,
    (grouped_scalar rfl hcommand hlist (hyields hfalse) .right).2 (.inr (.inr ?_))⟩
  rintro r ⟨y, u, f, i, u', hy, e, -⟩
  obtain ⟨⟨⟩, -⟩ := hy.det forces_value
  cases e

/-- Pulling the stream of an operand again and again gives the elements of a list. -/
def Operand.Drains (context : Context) (scope : Scope) (x : Operand) (w : World)
    (xs : List Item) : Prop :=
  ∃ s u u', Opens context scope x w s u ∧ Rill.Drains context s u xs u'

/-- Between parentheses `x` is the one value `v`, and an operator on `x` and `f` gives `xs` without
and `ys` with the parentheses. -/
def Operand.Parted (context : Context) (side : Side) (op : Operator) (x f : Operand) (w : World)
    (v : Value) (xs ys : List Item) : Prop :=
  (x.grouped context .ofParameter).Drains context .ofParameter w [.ok v] ∧
  (side.apply .ofParameter op x f).Drains context .ofParameter w xs ∧
  (side.apply .ofParameter op (x.grouped context .ofParameter) f).Drains context .ofParameter w ys

/-- Stores `false` in `n`, and gives `true`. -/
def storing : Factory :=
  .compose (.items [.ok (.bool false)]) (.bind ⟨0, 0⟩ (.items [.ok (.bool true)]))

/-- Where `n` is `true`, a second element gets lost between `n` and two truth values. Beside what
stores `false` in `n`, a parameter is read too late; something that stores `false` in `n` is done
too late; and a command is its name without parentheses. -/
theorem grouped_scalar_parted :
    (Operand.word "n").Parted {} .left .and truths (.ofParameter (.bool true)) (.bool true)
      [.ok (.bool true), .ok (.bool false)] [.ok (.bool true)] ∧
    (Operand.word "n").Parted {} .right .and truths (.ofParameter (.bool true)) (.bool true)
      [.ok (.bool true), .ok (.bool false)] [.ok (.bool true)] ∧
    (Operand.word "n").Parted {} .right .and (.stream storing) (.ofParameter (.bool true))
      (.bool true) [.ok (.bool true)] [.ok (.bool false)] ∧
    (Operand.stream (.andThen storing (.items [.ok (.bool true)]))).Parted {} .left .and
      (.streamRef "n") (.ofParameter (.bool true)) (.bool true) [.ok (.bool false)]
      [.ok (.bool true)] ∧
    (Operand.word "echo").Parted {} .left .add (.value (.string "es")) (.ofParameter (.bool true))
      (.json (.object [])) [.ok (.string "echoes")] [.error .invalidOp] := by
  have hone {x : Operand} {w u u₁ u₂ : World} {s s₁ s₂ : Stream} {i : Item}
      (ho : Eval.toStream {} 8 .ofParameter x w = some (s, u))
      (hi : Eval.pull {} 8 s u = some ((some i, s₁), u₁))
      (hend : Eval.pull {} 8 s₁ u₁ = some ((none, s₂), u₂)) :
      x.Drains {} .ofParameter w [i] :=
    ⟨s, u, u₂, (Eval.toStream_mono _ _).ends ho,
      .cons ((Eval.pull_mono _).ends hi) (.nil ((Eval.pull_mono _).ends hend))⟩
  have htwo {x : Operand} {w u u₁ u₂ u₃ : World} {s s₁ s₂ s₃ : Stream} {i j : Item}
      (ho : Eval.toStream {} 8 .ofParameter x w = some (s, u))
      (hi : Eval.pull {} 8 s u = some ((some i, s₁), u₁))
      (hj : Eval.pull {} 8 s₁ u₁ = some ((some j, s₂), u₂))
      (hend : Eval.pull {} 8 s₂ u₂ = some ((none, s₃), u₃)) :
      x.Drains {} .ofParameter w [i, j] :=
    ⟨s, u, u₃, (Eval.toStream_mono _ _).ends ho, .cons ((Eval.pull_mono _).ends hi)
      (.cons ((Eval.pull_mono _).ends hj) (.nil ((Eval.pull_mono _).ends hend)))⟩
  exact ⟨⟨hone rfl rfl rfl, htwo rfl rfl rfl rfl, hone rfl rfl rfl⟩,
    ⟨hone rfl rfl rfl, htwo rfl rfl rfl rfl, hone rfl rfl rfl⟩,
    ⟨hone rfl rfl rfl, hone rfl rfl rfl, hone rfl rfl rfl⟩,
    ⟨hone rfl rfl rfl, hone rfl rfl rfl, hone rfl rfl rfl⟩,
    ⟨hone rfl rfl rfl, hone rfl rfl rfl, hone rfl rfl rfl⟩⟩

end Rill
