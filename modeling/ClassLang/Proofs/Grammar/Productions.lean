import ClassLang.Proofs.Grammar.Layers
import Mathlib.Data.List.TakeWhile

set_option autoImplicit false

/-!
# The productions of the expression grammar

For each form of a plain expression, what its tokens are read as when its parts are read on their
layers.

## Main results

* `ClassLang.Grammar.parses_literal`, `ClassLang.Grammar.parses_var`, `ClassLang.Grammar.parses_call`,
  `ClassLang.Grammar.parses_grouped` — primary expressions.
* `ClassLang.Grammar.ParsesAt.field`, `ClassLang.Grammar.ParsesAt.index`,
  `ClassLang.Grammar.ParsesAt.methodCall` — access.
* `ClassLang.Grammar.ParsesAt.behind`, `ClassLang.Grammar.ParsesAt.front` — operators with one operand.
* `ClassLang.Grammar.ParsesAt.binary`, `ClassLang.Grammar.parses_compound`,
  `ClassLang.Grammar.parses_assign` — operators with two operands.
-/

namespace ClassLang

open Spelling (sign)

namespace Grammar

open ClassLang.Parser

/-! ## Primary expressions -/

/-- A word without brackets is not taken apart. -/
lemma glued_of_bracketFree (inner : Parser Expr) (budget : Nat) {t : Token}
    (h : BracketFree t.lexeme) : glued inner budget t = pure (t.lexeme, []) := by
  have hsuffix : t.lexeme.toList.dropWhile (fun c => decide (c ≠ '[')) = [] := by
    rw [List.dropWhile_eq_nil_iff]
    intro c hc
    simpa using fun hbracket : c = '[' => h.1 (hbracket ▸ hc)
  simp only [glued, hsuffix, Brackets.isPairs, if_true]

/-- A token that is no operator starts an operand. -/
lemma leadingOp?_eq_none {t : Token} (h : t.kind ≠ .operator) : leadingOp? t = none := by
  simp [leadingOp?, Token.isOperator, h]

lemma reads_literal (t : Token) (value : Literal.Value) (rest : List Token) :
    Reads (literal t (some value)) (t :: rest) (literalExpr t value) rest :=
  (reads_next t rest).bind (reads_pure _ _)

/-- The token of a consistent literal has that literal as its value. -/
lemma reads_primary_literal (inner : Parser Expr) (budget : Nat) {t : Token} {l : Literal}
    (hl : l.Consistent) (ht : t.spelling = (l.value.kind, l.text)) (rest : List Token) :
    Reads (primaryOf inner budget) (t :: rest) (.literal t.line l) rest := by
  obtain ⟨hkind, htext⟩ := Prod.mk.inj ht
  obtain ⟨value, text⟩ := l
  subst htext
  refine (reads_peek_cons t rest).bind ?_
  cases value <;> simp only [Literal.Value.kind] at hkind <;>
    simp only [Literal.Consistent] at hl <;> simp only [hkind]
  case int i =>
    rw [hl]
    exact reads_literal t (.int i) rest
  case float x =>
    rw [hl]
    exact reads_literal t (.float x) rest
  case double x =>
    rw [hl]
    exact reads_literal t (.double x) rest
  case boolean v =>
    have hkeyword : keywordExpr inner budget t = literal t (some (.boolean v)) := by
      cases v <;> simp [keywordExpr, hl]
    rw [hkeyword]
    exact reads_literal t (.boolean v) rest
  case char text =>
    rw [hl]
    exact reads_literal t (.char text) rest
  case string text =>
    rw [hl]
    exact reads_literal t (.string text) rest
  case null =>
    have hkeyword : keywordExpr inner budget t = literal t (some .null) := by
      simp [keywordExpr, hl]
    rw [hkeyword]
    exact reads_literal t .null rest

lemma parses_literal (b : Nat) {t : Token} {l : Literal} (hl : l.Consistent)
    (ht : t.spelling = (l.value.kind, l.text)) : ParsesAt b 10 [t] (.literal t.line l) := by
  have hkind : t.kind ≠ .operator := by
    rw [(Prod.mk.inj ht).1]
    cases l.value <;> simp [Literal.Value.kind]
  exact ⟨⟨t, [], rfl, leadingOp?_eq_none hkind⟩,
    fun rest _ => reads_primary_literal (exprWithin b) (b + 1) hl ht rest⟩

lemma parses_var (b : Nat) {t : Token} {name : String} (hname : BracketFree name)
    (ht : t.spelling = (.identifier, name)) : ParsesAt b 10 [t] (.var t.line name) := by
  obtain ⟨hkind, rfl⟩ := Prod.mk.inj ht
  refine ⟨⟨t, [], rfl, leadingOp?_eq_none (by simp [hkind])⟩, fun rest hrest => ?_⟩
  refine (reads_peek_cons t rest).bind ?_
  simp only [hkind, nameExpr, glued_of_bracketFree _ _ hname]
  refine (reads_next t rest).bind ((reads_pure _ _).bind ?_)
  exact hrest.reads_hasOperator.bind (reads_pure _ _)

/-- An expression in parentheses is primary. -/
lemma parses_grouped {b : Nat} {left right : Token} {ts : List Token} {e : Expr}
    (hleft : left.spelling = sign "(") (hright : right.spelling = sign ")")
    (he : ∀ rest, Follows 0 rest → Reads (exprWithin b) (ts ++ rest) e rest) :
    ParsesAt b 10 (left :: ts ++ [right]) e := by
  obtain ⟨hkind, htext⟩ := Prod.mk.inj hleft
  have hfront : leadingOp? left = none := by
    simp [leadingOp?, Token.isOperator, htext]
  refine ⟨⟨left, ts ++ [right], rfl, hfront⟩, fun rest _ => ?_⟩
  have happend : left :: ts ++ [right] ++ rest = left :: (ts ++ right :: rest) := by simp
  rw [happend]
  refine (reads_peek_cons _ _).bind ?_
  simp only [hkind, htext, if_true]
  have hends : Follows 0 (right :: rest) := follows_closer hright (by decide) 0 _
  refine (reads_next _ _).bind ((he _ hends).bind ?_)
  exact (reads_expectOperator (Token.isOperator_of_spelling hright) rest).bind (reads_pure _ _)

/-- A name with an argument list behind it is a call. -/
lemma parses_call {b : Nat} {t : Token} {name : String} (hname : BracketFree name)
    (ht : t.spelling = (.identifier, name)) {left : Token} (hleft : left.spelling = sign "(")
    {ts : List Token} {args : List Expr}
    (hargs : ∀ rest, Reads (arguments (exprWithin b) (b + 1)) (left :: ts ++ rest) args rest) :
    ParsesAt b 10 (t :: left :: ts) (.call t.line name args) := by
  obtain ⟨hkind, rfl⟩ := Prod.mk.inj ht
  refine ⟨⟨t, left :: ts, rfl, leadingOp?_eq_none (by simp [hkind])⟩, fun rest _ => ?_⟩
  refine (reads_peek_cons t _).bind ?_
  simp only [hkind, nameExpr, glued_of_bracketFree _ _ hname]
  refine (reads_next t _).bind ((reads_pure _ _).bind ?_)
  have hopen : Reads (hasOperator "(") (left :: ts ++ rest) true (left :: ts ++ rest) := by
    simpa [Token.isOperator_of_spelling hleft] using reads_hasOperator "(" (left :: ts ++ rest)
  exact hopen.bind ((hargs rest).bind (reads_pure _ _))

/-! ## What stands behind and in front of an operand -/

/-- What starts an operand still does with more tokens behind it. -/
lemma StartsOperand.append {ts : List Token} (h : StartsOperand ts) (more : List Token) :
    StartsOperand (ts ++ more) := by
  obtain ⟨t, tail, rfl, hfront⟩ := h
  exact ⟨t, tail ++ more, rfl, hfront⟩

/-- One more round of the loop behind a primary expression: if the tokens `ts` and then any `rest`
take the loop from `e` to `e'`, they go behind the tokens of `e`. -/
lemma ParsesAt.access {b : Nat} {ts us : List Token} {e e' : Expr} (h : ParsesAt b 9 ts e)
    (hlen : (ts ++ us).length ≤ b) (hus : us ≠ []) (hcall : ∀ rest, OpensNoCall (us ++ rest))
    (hround : ∀ steps rest y last, OpensNoCall rest →
      Reads (trailers (exprWithin b) (b + 1) steps e') rest y last →
        Reads (trailers (exprWithin b) (b + 1) (steps + 1) e) (us ++ rest) y last) :
    ParsesAt b 9 (ts ++ us) e' := by
  obtain ⟨hstart, steps, hsteps, hloop⟩ := h
  have hpos : 0 < us.length := List.length_pos_iff.mpr hus
  rw [List.length_append] at hlen
  obtain ⟨steps, rfl⟩ : ∃ n, steps = n + 1 := ⟨steps - 1, by omega⟩
  refine ⟨hstart.append us, steps, ?_, fun rest hrest y last hlast => ?_⟩
  · rw [List.length_append]
    omega
  · rw [List.append_assoc]
    exact hloop _ (hcall rest) y last (hround steps rest y last hrest hlast)

lemma opensNoCall_cons {t : Token} {text : String} (ht : t.spelling = sign text) (hne : text ≠ "(")
    (rest : List Token) : OpensNoCall (t :: rest) := by
  rintro _ ⟨⟩
  exact Token.isOperator_eq_false ht hne

/-- The loop reads a dot and a member name, and then sees whether a call opens. -/
lemma trailers_member {b steps : Nat} {e y : Expr} {dot t : Token} {name : String}
    (hdot : dot.spelling = sign ".") (ht : t.spelling = (.identifier, name))
    (hname : BracketFree name) {ts last : List Token}
    (h : Reads (do
      let opensCall ← hasOperator "("
      if opensCall then
        let args ← arguments (exprWithin b) (b + 1)
        trailers (exprWithin b) (b + 1) steps (.methodCall t.line e name args)
      else trailers (exprWithin b) (b + 1) steps (.field t.line e name)) ts y last) :
    Reads (trailers (exprWithin b) (b + 1) (steps + 1) e) (dot :: t :: ts) y last := by
  obtain ⟨hkind, rfl⟩ := Prod.mk.inj ht
  refine (reads_acceptOperator_true (Token.isOperator_of_spelling hdot) _).bind ?_
  refine (reads_anyToken t ts).bind ?_
  simp only [hkind, decide_true, Bool.true_or, if_true, glued_of_bracketFree _ _ hname]
  refine (reads_pure _ _).bind ?_
  simpa [indexed] using h

lemma ParsesAt.field {b : Nat} {ts : List Token} {e : Expr} {dot t : Token} {name : String}
    (h : ParsesAt b 9 ts e) (hdot : dot.spelling = sign ".")
    (ht : t.spelling = (.identifier, name)) (hname : BracketFree name)
    (hlen : (ts ++ [dot, t]).length ≤ b) :
    ParsesAt b 9 (ts ++ [dot, t]) (.field t.line e name) := by
  refine h.access hlen (by simp) (fun rest => opensNoCall_cons hdot (by decide) _) ?_
  intro steps rest y last hrest hlast
  refine trailers_member hdot ht hname ?_
  exact hrest.reads_hasOperator.bind hlast

lemma ParsesAt.methodCall {b : Nat} {ts us : List Token} {e : Expr} {dot t left : Token}
    {name : String} {args : List Expr} (h : ParsesAt b 9 ts e) (hdot : dot.spelling = sign ".")
    (ht : t.spelling = (.identifier, name)) (hname : BracketFree name)
    (hleft : left.spelling = sign "(") (hlen : (ts ++ dot :: t :: left :: us).length ≤ b)
    (hargs : ∀ rest, Reads (arguments (exprWithin b) (b + 1)) (left :: us ++ rest) args rest) :
    ParsesAt b 9 (ts ++ dot :: t :: left :: us) (.methodCall t.line e name args) := by
  refine h.access hlen (by simp) (fun rest => opensNoCall_cons hdot (by decide) _) ?_
  intro steps rest y last hrest hlast
  refine trailers_member hdot ht hname ?_
  have hopen : Reads (hasOperator "(") (left :: us ++ rest) true (left :: us ++ rest) := by
    simpa [Token.isOperator_of_spelling hleft] using reads_hasOperator "(" (left :: us ++ rest)
  exact hopen.bind ((hargs rest).bind hlast)

lemma ParsesAt.index {b : Nat} {ts us : List Token} {e place : Expr} {left right : Token}
    (h : ParsesAt b 9 ts e) (hleft : left.spelling = sign "[") (hright : right.spelling = sign "]")
    (hlen : (ts ++ left :: us ++ [right]).length ≤ b)
    (hplace : ∀ rest, Follows 0 rest → Reads (exprWithin b) (us ++ rest) place rest) :
    ParsesAt b 9 (ts ++ left :: us ++ [right]) (.index left.line e place) := by
  rw [List.append_assoc] at hlen ⊢
  refine h.access hlen (by simp) (fun rest => opensNoCall_cons hleft (by decide) _) ?_
  intro steps rest y last hrest hlast
  have hdot : left.isOperator "." = false := Token.isOperator_eq_false hleft (by decide)
  have hopen : left.isOperator "[" = true := Token.isOperator_of_spelling hleft
  have happend : left :: us ++ [right] ++ rest = left :: (us ++ right :: rest) := by simp
  have hends : Follows 0 (right :: rest) := follows_closer hright (by decide) 0 _
  rw [happend]
  refine (reads_acceptOperator_false (by simpa using hdot)).bind ?_
  have hhas : Reads (hasOperator "[") (left :: (us ++ right :: rest)) true
      (left :: (us ++ right :: rest)) := by
    simpa [hopen] using reads_hasOperator "[" (left :: (us ++ right :: rest))
  refine hhas.bind ((reads_expectOperator hopen _).bind ((hplace _ hends).bind ?_))
  exact (reads_expectOperator (Token.isOperator_of_spelling hright) rest).bind hlast

/-- A step behind an operand ends what stands behind it. -/
lemma ParsesAt.behind {b : Nat} {ts : List Token} {e : Expr} {t : Token} {op : UnaryOp}
    (h : ParsesAt b 9 ts e) (hop : op.standsBehind = true) (ht : t.spelling = sign op.text)
    (hlen : (ts ++ [t]).length ≤ b) : ParsesAt b 8 (ts ++ [t]) (.unary e.line op e) := by
  obtain ⟨hstart, steps, hsteps, hloop⟩ := h
  rw [List.length_append] at hlen
  obtain ⟨steps, rfl⟩ : ∃ n, steps = n + 1 := ⟨steps - 1, by omega⟩
  refine ⟨hstart.append [t], fun rest hrest => ?_⟩
  rw [List.append_assoc]
  have hstep : trailingStep? t = some op ∧ op.text ≠ "." ∧ op.text ≠ "[" ∧ op.text ≠ "(" := by
    obtain ⟨hkind, htext⟩ := Prod.mk.inj ht
    cases op <;>
      simp_all [UnaryOp.standsBehind, trailingStep?, Token.isOperator, UnaryOp.text]
  obtain ⟨hstep, hdot, hbracket, hcall⟩ := hstep
  refine hloop _ (opensNoCall_cons ht hcall _) _ _ ?_
  refine (reads_acceptOperator_false (by simp [Token.isOperator_eq_false ht hdot])).bind ?_
  have hhas : Reads (hasOperator "[") (t :: rest) false (t :: rest) := by
    simpa [Token.isOperator_eq_false ht hbracket] using reads_hasOperator "[" (t :: rest)
  refine hhas.bind ((reads_peek_cons t rest).bind ?_)
  simp only [Option.bind_some, hstep]
  exact (reads_next t rest).bind (reads_pure _ _)

/-- An operator in front of an operand. -/
lemma ParsesAt.front {b : Nat} {ts : List Token} {e : Expr} {t : Token} {op : UnaryOp}
    (h : ParsesAt b 7 ts e) (hop : op.standsBehind = false) (ht : t.spelling = sign op.text) :
    ParsesAt b 7 (t :: ts) (.unary t.line op e) := by
  intro steps hsteps rest hrest
  rw [List.length_cons] at hsteps
  obtain ⟨steps, rfl⟩ : ∃ n, steps = n + 1 := ⟨steps - 1, by omega⟩
  have hlead : leadingOp? t = some (some op) := by
    obtain ⟨hkind, htext⟩ := Prod.mk.inj ht
    cases op <;> simp_all [UnaryOp.standsBehind, leadingOp?, Token.isOperator, UnaryOp.text]
  refine (reads_peek_cons t (ts ++ rest)).bind ?_
  simp only [hlead]
  exact (reads_next t _).bind ((h steps (by omega) rest hrest).bind (reads_pure _ _))

/-! ## Operators with two operands -/

/-- An operator that groups to the left: the loop that has read the left operand goes round once
more. -/
lemma ParsesAt.binary {b : Nat} {ts us : List Token} {left right : Expr} {t : Token}
    {op : BinaryOp} (hop : 1 ≤ op.layer) (hleft : ParsesAt b op.layer ts left)
    (hright : LayerReads b (op.layer + 1) us right) (ht : t.spelling = sign op.text)
    (hlen : (ts ++ t :: us).length ≤ b) :
    ParsesAt b op.layer (ts ++ t :: us) (.binary t.line op left right) := by
  have h6 := op.layer_le_six
  obtain ⟨steps, hsteps, hloop⟩ := (parsesAt_binary hop h6).mp hleft
  rw [List.length_append, List.length_cons] at hlen
  obtain ⟨steps, rfl⟩ : ∃ n, steps = n + 1 := ⟨steps - 1, by omega⟩
  refine (parsesAt_binary hop h6).mpr ⟨steps, ?_, fun rest hrest y last hlast => ?_⟩
  · rw [List.length_append, List.length_cons]
    omega
  · rw [List.append_assoc]
    have hends := follows_op ht (Nat.lt_succ_self _) (us ++ rest)
    exact hloop _ hends y last (binaryLoop_step ht (hright rest hrest) hlast)

/-- An assignment with an arithmetic operator. -/
lemma parses_compound {b : Nat} {ts us : List Token} {left right : Expr} {t : Token} {op : Arith}
    (hleft : LayerReads b 1 ts left)
    (hright : ∀ rest, Follows 0 rest → Reads (exprWithin b) (us ++ rest) right rest)
    (ht : t.spelling = sign (BinaryOp.assign op).text) :
    ParsesAt b 0 (ts ++ t :: us) (.binary t.line (.assign op) left right) := by
  intro rest hrest
  rw [List.append_assoc]
  have hends : Follows 1 (t :: us ++ rest) := follows_op ht Nat.zero_lt_one _
  refine (hleft _ hends).bind ((reads_peek_cons t _).bind ?_)
  have hplain : t.isOperator "=" = false :=
    Token.isOperator_eq_false ht (by cases op <;> decide)
  have hcompound : binaryOp? compoundOps t = some (.assign op) := binaryOp?_of_spelling ht
  simp only [hplain, hcompound, Bool.false_eq_true, if_false]
  exact (reads_next t _).bind ((hright rest hrest).bind (reads_pure _ _))

/-- A plain assignment, whose value is no array in braces. -/
lemma parses_assign {b : Nat} {ts us : List Token} {target value : Expr} {t : Token}
    (htarget : LayerReads b 1 ts target)
    (hvalue : ∀ rest, Follows 0 rest → Reads (exprWithin b) (us ++ rest) value rest)
    (ht : t.spelling = sign "=")
    (hbrace : ∀ rest, ((us ++ rest).head?.any fun u => u.isOperator openBrace) = false) :
    ParsesAt b 0 (ts ++ t :: us) (.assign t.line target value) := by
  intro rest hrest
  rw [List.append_assoc]
  have hends : Follows 1 (t :: us ++ rest) := by
    rintro _ ⟨⟩
    exact ⟨(Prod.mk.inj ht).1, .inr (.inl ⟨Nat.zero_lt_one, (Prod.mk.inj ht).2⟩)⟩
  refine (htarget _ hends).bind ((reads_peek_cons t _).bind ?_)
  simp only [Token.isOperator_of_spelling ht, if_true]
  refine (reads_next t _).bind (Reads.bind ?_ (reads_pure _ _))
  have hhas : Reads (hasOperator openBrace) (us ++ rest) false (us ++ rest) :=
    hbrace rest ▸ reads_hasOperator openBrace (us ++ rest)
  exact hhas.bind (hvalue rest hrest)

end Grammar

end ClassLang
