import Rill.Proofs.Json.RoundTrip
import Rill.Proofs.Line.Yard

/-!
# Reading a record

Inside the braces of a record a token that is punctuation or a literal adds one operand
(`token_mark`, `token_literal`), and so do the tokens of a record in braces (`all_record`). Operands
of which each is punctuation or a known value are written one after the other; if what they make up
is the text of an object, they are a record of that object (`Record.build_of_content`).
-/

namespace Rill

open Parse (bind_ok lift_ok all_ok)

variable {context : Context} {s : Stage} {p : Parse} {tokens rest : List String}
  {xs ys : List Operand}

/-! ## Operands of a record -/

namespace Record

/-- The last operand is punctuation, or there is none: what comes next begins a value. -/
def Awaits (xs : List Operand) : Prop := ∀ x ∈ xs.getLast?, isPunctuation x = true

/-- The operand is punctuation or a value that is known. -/
def Known (x : Operand) : Prop := isPunctuation x = true ∨ ∃ v, x = .value v

/-- The text of an operand that is punctuation or a known value. -/
def content : Operand → List Char
  | .word w => w.toList
  | .value v => v.toJson.chars
  | _ => []

theorem awaits_nil : Awaits [] := nofun

theorem awaits_append {w : String} (hw : punctuation.contains w = true) (xs : List Operand) :
    Awaits (xs ++ [.word w]) := by
  intro x hx
  rw [List.getLast?_concat] at hx
  obtain rfl := Option.some.inj hx
  exact hw

/-- Punctuation is copied, and a known value is written. -/
theorem content_parts (h : ∀ x ∈ xs, Known x) :
    (String.join ((parts xs).map fixedContent)).toList = xs.flatMap content := by
  induction xs with
  | nil => rfl
  | cons x xs ih =>
    have hrest := ih fun y hy => h y (List.mem_cons_of_mem _ hy)
    rw [String.toList_join] at hrest ⊢
    rcases h x List.mem_cons_self with hx | ⟨v, rfl⟩
    · match x, hx with
      | .word w, hw =>
        have hw : punctuation.contains w = true := hw
        simp only [parts, hw, ↓reduceIte, List.map_cons, List.flatMap_cons, hrest]
        rfl
    · simp only [parts, List.map_cons, List.flatMap_cons, hrest, fixedContent, Value.toJsonText,
        Json.render, String.toList_ofList, content]

theorem isFixed_of_known {scope : Scope}
    (hscope : ∀ w, punctuation.contains w = true → scope.isVarPath w = false) {x : Operand}
    (h : Known x) : isFixed scope x = true := by
  rcases h with hx | ⟨v, rfl⟩
  · match x, hx with
    | .word w, hw => rw [isFixed, hscope w hw]; rfl
  · rfl

/-- Contents that are the text of the fields of an object are, in braces, the text of the object. -/
theorem text_of_fieldChars {contents : List String} {fields : List (String × Json)}
    (h : (String.join contents).toList = Json.fieldChars fields) :
    text contents = (Json.object fields).render := by
  have hrender : (Json.object fields).render.toList =
      '\x7b' :: (Json.fieldChars fields ++ ['\x7d']) := by
    rw [Json.render, String.toList_ofList, Json.chars]
  apply String.toList_inj.mp
  rw [text, String.toList_append, String.toList_append, h, hrender]
  rfl

/-- The text of an object is read as a record of it. -/
theorem ofText_render {ok : String → Prop} {fields : List (String × Json)}
    (he : Json.Exact ok Json.maxDepth (.object fields)) :
    ofText none (Json.object fields).render = .ok (.json (.object fields)) := by
  rw [ofText, he.value_read]
  rfl

/-- Operands whose text is that of an object are a record of that object. -/
theorem build_of_content {scope : Scope} {ok : String → Prop} {fields : List (String × Json)}
    (hscope : ∀ w, punctuation.contains w = true → scope.isVarPath w = false)
    (hk : ∀ x ∈ xs, Known x) (hc : xs.flatMap content = Json.fieldChars fields)
    (he : Json.Exact ok Json.maxDepth (.object fields)) :
    build scope xs = .ok (.value (.json (.object fields))) := by
  have htext : text ((parts xs).map fixedContent) = (Json.object fields).render :=
    text_of_fieldChars ((content_parts hk).trans hc)
  rw [build, if_pos (List.all_eq_true.mpr fun x hx => isFixed_of_known hscope (hk x hx)), htext,
    ofText_render he]
  rfl

end Record

open Record (Awaits Known content punctuation)

/-! ## Tokens of a record -/

/-- The stage takes the operands of a record, and no punctuation is a parameter there. -/
structure Stage.InRecord (s : Stage) : Prop where
  depth : 0 < s.recordDepth
  closure : s.closure = none
  scope : ∀ w, punctuation.contains w = true → s.scope.isVarPath w = false

/-- The line with so many operands in the stage `s`, on top of the stages of `p`. -/
def Parse.on (p : Parse) (s : Stage) (tokens : List String) (xs : List Operand) : Parse :=
  { p with tokens := tokens, stages := { s with operands := xs } :: p.stages }

theorem pushOperand_on (hs : s.closure = none) (x : Operand) :
    Parse.pushOperand x (p.on s tokens xs) = .ok () (p.on s tokens (xs ++ [x])) := by
  have hpush : Stage.push { s with operands := xs } x = .ok { s with operands := xs ++ [x] } := by
    simp only [Stage.push, hs, Option.isSome_none, Bool.false_eq_true, ↓reduceIte]
  exact (bind_ok rfl).trans ((bind_ok (lift_ok hpush _)).trans rfl)

theorem token_inRecord (hs : s.InRecord) {t : String}
    (ht : t ≠ "(" ∧ t ≠ ")" ∧ t ≠ "\x7b" ∧ t ≠ "\x7d") :
    Parse.token context t (p.on s tokens xs) = Parse.recordToken context t (p.on s tokens xs) := by
  simp only [Parse.token, beq_false_of_ne ht.1, beq_false_of_ne ht.2.1, beq_false_of_ne ht.2.2.1,
    beq_false_of_ne ht.2.2.2, Bool.false_eq_true, if_false]
  refine (bind_ok rfl).trans ?_
  show (if 0 < s.recordDepth then _ else _ : Parser Unit) _ = _
  rw [if_pos hs.depth]

/-- A token that is no operator and no bracket becomes the operand that it is read as. -/
theorem token_operand (hs : s.InRecord) {t : String} {x : Operand} (h : Leaf.read t = .ok x)
    (hm : t ∉ Yard.marks) :
    Parse.token context t (p.on s tokens xs) = .ok () (p.on s tokens (xs ++ [x])) := by
  have ne (m : String) (k : m ∈ Yard.marks := by decide) : t ≠ m := by
    rintro rfl
    exact hm k
  have hop : Parse.isOperator t = false := by
    simp only [Parse.isOperator, Yard.ofInfix?_eq_none hm, Option.isSome_none,
      beq_false_of_ne (ne "!"), beq_false_of_ne (ne "&"), beq_false_of_ne (ne "?"), Bool.or_false]
  rw [token_inRecord hs ⟨ne "(", ne ")", ne "\x7b", ne "\x7d"⟩]
  refine (bind_ok rfl).trans ?_
  simp only [Yard.ofInfix?_eq_none hm, hop, Bool.false_eq_true, if_false]
  exact (bind_ok (lift_ok h _)).trans (pushOperand_on hs.closure _)

/-- A literal becomes an operand. -/
theorem token_literal (hs : s.InRecord) {t : String} {v : Value}
    (h : Leaf.read t = .ok (.value v)) :
    Parse.token context t (p.on s tokens xs) = .ok () (p.on s tokens (xs ++ [.value v])) :=
  token_operand hs h (Yard.literal_not_mark h)

/-- Punctuation becomes a word, a minus sign only where a value begins. -/
theorem token_mark (hs : s.InRecord) {t : String}
    (ht : t = ":" ∨ t = "," ∨ t = "[" ∨ t = "]" ∨ t = "-" ∧ Awaits xs) :
    Parse.token context t (p.on s tokens xs) = .ok () (p.on s tokens (xs ++ [.word t])) := by
  rcases ht with rfl | rfl | rfl | rfl | ⟨rfl, hxs⟩
  · exact (token_inRecord hs (by decide)).trans ((bind_ok rfl).trans (pushOperand_on hs.closure _))
  · exact (token_inRecord hs (by decide)).trans ((bind_ok rfl).trans
      ((bind_ok (lift_ok rfl _)).trans (pushOperand_on hs.closure _)))
  · exact (token_inRecord hs (by decide)).trans ((bind_ok rfl).trans
      ((bind_ok (lift_ok rfl _)).trans (pushOperand_on hs.closure _)))
  · exact (token_inRecord hs (by decide)).trans ((bind_ok rfl).trans
      ((bind_ok (lift_ok rfl _)).trans (pushOperand_on hs.closure _)))
  · refine (token_inRecord hs (by decide)).trans ((bind_ok rfl).trans ?_)
    -- a minus where no value can stand before it is no operator
    show (if (Operator.sub.isValueOp && _) = true then _ else _ : Parser Unit) _ = _
    rw [if_neg]
    · exact pushOperand_on hs.closure _
    · split
      next x hx => rw [hxs x hx]; decide
      next => decide

/-- An opening brace inside a record, or where no closure can begin. -/
theorem token_openRecord
    (hc : Parse.opensClosure { s with operands := xs } p.pending tokens = false) :
    Parse.token context "\x7b" (p.on s tokens xs) =
      .ok () (Parse.on
        { p with
          pending := .brace .record :: p.pending, stages := { s with operands := xs } :: p.stages }
        { s.child with recordDepth := s.recordDepth + 1 } tokens []) := by
  refine (bind_ok rfl).trans ((bind_ok rfl).trans ?_)
  show (if Parse.opensClosure { s with operands := xs } p.pending tokens = true then _ else _ :
    Parser Unit) _ = _
  rw [hc]
  rfl

/-- A record that is closed where a value may begin becomes an operand. -/
theorem closeRecord_on {body : Stage} {x : Operand} (hs : s.closure = none) (hxs : Awaits xs)
    (hb : Record.build body.scope body.operands = .ok x) :
    Parse.closeRecord body (p.on s tokens xs) = .ok () (p.on s tokens (xs ++ [x])) := by
  have hpush : ∀ y ∈ xs.getLast?, ∀ w, y = .word w → Parse.isTypeName s.scope w = false := by
    rintro y hy w rfl
    have hw : w ∈ punctuation := by simpa [Record.isPunctuation] using hxs _ hy
    have hdot : ∀ w ∈ punctuation, w.toList.contains '.' = false := by decide
    simp only [Parse.isTypeName, hdot w hw, Bool.false_and]
  refine (bind_ok (lift_ok hb _)).trans ((bind_ok rfl).trans ?_)
  dsimp only
  generalize hlast : xs.getLast? = last
  cases last with
  | none => exact pushOperand_on hs x
  | some y =>
    cases y with
    | word w =>
      refine Eq.trans (congrFun (if_neg ?_) _) (pushOperand_on hs x)
      exact Bool.eq_false_iff.mp (hpush _ hlast w rfl)
    | _ => exact pushOperand_on hs x

/-- A closing brace makes an operand of the record around which no type is named. -/
theorem token_closeRecord (body : Stage) {x : Operand} (hs : s.closure = none) (hxs : Awaits xs)
    (hb : Record.build body.scope ys = .ok x) :
    Parse.token context "\x7d" (Parse.on
        { p with
          pending := .brace .record :: p.pending, stages := { s with operands := xs } :: p.stages }
        body tokens ys) =
      .ok () (p.on s tokens (xs ++ [x])) := by
  have hfold (q : Parse) (rest : List Pending) (hq : q.pending = .brace .record :: rest) :
      Parse.foldAll context (fun p => !p.isBracket) q = .ok () q := by
    refine (bind_ok rfl).trans (Parse.foldWhile_of_head ?_ _)
    rw [hq]
    rintro x hx
    obtain rfl := Option.some.inj hx
    rfl
  refine (bind_ok (hfold _ _ rfl)).trans ((bind_ok rfl).trans ((bind_ok rfl).trans ?_))
  show Parse.closeRecord { body with operands := ys } (p.on s tokens xs) = _
  exact closeRecord_on hs hxs hb

/-! ## Tokens one after the other -/

/-- Inside a record the token adds the operand, if `before` holds of those before it. -/
def Adds (context : Context) (before : List Operand → Prop) (t : String) (y : Operand) : Prop :=
  ∀ ⦃p : Parse⦄ ⦃s : Stage⦄ ⦃tokens xs⦄, s.InRecord → before xs →
    Parse.token context t (p.on s tokens xs) = .ok () (p.on s tokens (xs ++ [y]))

/-- Inside a record the tokens add the operands, if `before` holds of those before them. -/
def Puts (context : Context) (before : List Operand → Prop) (ts : List String) (ys : List Operand) :
    Prop :=
  ∀ ⦃p : Parse⦄ ⦃s : Stage⦄ ⦃rest xs⦄, s.InRecord → before xs →
    Parse.all context (ts ++ rest) (p.on s (ts ++ rest) xs) =
      Parse.all context rest (p.on s rest (xs ++ ys))

variable {before before' : List Operand → Prop} {ts ts' : List String}

theorem Puts.nil : Puts context before [] [] := by
  intro p s rest xs _ _
  rw [List.append_nil, List.nil_append]

theorem Adds.puts {t : String} {y : Operand} (h : Adds context before t y) :
    Puts context before [t] [y] :=
  fun _ _ _ _ hs hxs => all_ok (h hs hxs)

theorem Puts.append {zs : List Operand} (h : Puts context before ts ys)
    (k : Puts context before' ts' zs) (hb : ∀ xs, before xs → before' (xs ++ ys)) :
    Puts context before (ts ++ ts') (ys ++ zs) := by
  intro p s rest xs hs hxs
  rw [List.append_assoc, h hs hxs, k hs (hb xs hxs), List.append_assoc]

/-- A record in braces becomes one operand. -/
theorem all_record (rest : List String) {x : Operand} (hs : s.closure = none)
    (hscope : ∀ w, punctuation.contains w = true → s.scope.isVarPath w = false) (hxs : Awaits xs)
    (ho : ∀ tokens, Parse.opensClosure { s with operands := xs } p.pending tokens = false)
    (h : Puts context Awaits ts ys) (hb : Record.build s.scope ys = .ok x) :
    Parse.all context ("\x7b" :: (ts ++ "\x7d" :: rest))
        (p.on s ("\x7b" :: (ts ++ "\x7d" :: rest)) xs) =
      Parse.all context rest (p.on s rest (xs ++ [x])) := by
  have hin : Stage.InRecord { s.child with recordDepth := s.recordDepth + 1 } :=
    ⟨Nat.succ_pos _, rfl, hscope⟩
  exact (all_ok (token_openRecord (ho _))).trans ((h hin Record.awaits_nil).trans
    (all_ok (token_closeRecord _ hs hxs hb)))

end Rill
