import ClassLang.Proofs.Grammar.Productions

set_option autoImplicit false

/-!
# Reading a rendered expression back

The grammar inverts rendering: the spellings of a plain expression are read as that expression,
up to lines, and nothing behind them is touched.

## Main definitions

* `ClassLang.Grammar.ReadsBack` — the spellings of an expression are read as that expression.

## Main results

* `ClassLang.Grammar.readsBack_of_plain` — every plain expression is read back on its own layer.
* `ClassLang.Grammar.expr_inverts_rendering` — a whole expression is read back.
-/

namespace ClassLang

open Spelling (sign wrap)

namespace Grammar

open ClassLang.Parser

/-! ## First tokens -/

/-- No expression starts with a closing parenthesis or an opening brace. -/
def StartsExpr (spellings : List Spelling) : Prop :=
  ∃ s more, spellings = s :: more ∧ s ≠ sign ")" ∧ s ≠ sign openBrace

lemma StartsExpr.append {ss : List Spelling} (h : StartsExpr ss) (more : List Spelling) :
    StartsExpr (ss ++ more) := by
  obtain ⟨s, tail, rfl, hs⟩ := h
  exact ⟨s, tail ++ more, rfl, hs⟩

lemma StartsExpr.wrap {ss : List Spelling} (h : StartsExpr ss) (place layer : Nat) :
    StartsExpr (wrap place layer ss) := by
  unfold Spelling.wrap
  split
  · exact ⟨sign "(", ss ++ [sign ")"], rfl, by decide, by decide⟩
  · exact h

/-- The first spelling of a plain expression starts an expression. -/
lemma startsExpr_spellings : (e : Expr) → e.Plain → StartsExpr e.spellings
  | .literal _ l, _ => by
    refine ⟨(l.value.kind, l.text), [], rfl, ?_, ?_⟩ <;>
      cases l.value <;> simp [Literal.Value.kind]
  | .var _ name, _ => ⟨(.identifier, name), [], rfl, by simp, by simp⟩
  | .binary _ op left right, h => by
    simp only [Expr.spellings]
    exact ((startsExpr_spellings left h.1).wrap _ _).append _
  | .unary _ op operand, h => by
    have hoperand := (startsExpr_spellings operand h).wrap op.operandLayer operand.layer
    simp only [Expr.spellings, UnaryOp.place]
    split
    · exact hoperand.append _
    · exact ⟨sign op.text, _, rfl, by cases op <;> decide, by cases op <;> decide⟩
  | .call _ name args, _ => ⟨(.identifier, name), _, rfl, by simp, by simp⟩
  | .methodCall _ receiver name args, h => by
    simp only [Expr.spellings]
    exact ((startsExpr_spellings receiver h.1).wrap _ _).append _
  | .index _ array place, h => by
    simp only [Expr.spellings, List.append_assoc]
    exact ((startsExpr_spellings array h.1).wrap _ _).append _
  | .field _ object name, h => by
    simp only [Expr.spellings]
    exact ((startsExpr_spellings object h.1).wrap _ _).append _
  | .assign _ target value, h => by
    simp only [Expr.spellings]
    exact ((startsExpr_spellings target h.1).wrap _ _).append _

/-- Tokens that start an expression start with neither of two signs. -/
lemma StartsExpr.any_isOperator {ts : List Token} (h : StartsExpr (ts.map Token.spelling))
    {text : String} (htext : text = ")" ∨ text = openBrace) (rest : List Token) :
    ((ts ++ rest).head?.any fun t => t.isOperator text) = false := by
  obtain ⟨s, more, hts, hclose, hopen⟩ := h
  obtain ⟨t, tail, rfl, rfl, -⟩ := List.map_eq_cons_iff.mp hts
  by_contra hop
  have hop : t.isOperator text = true := by simpa using hop
  have hspelling : t.spelling = sign text := by
    simpa [Token.isOperator, Token.spelling, Prod.ext_iff] using hop
  rcases htext with rfl | rfl
  · exact hclose hspelling
  · exact hopen hspelling

/-! ## Expressions that are read back -/

/-- All tokens with the spellings of `e` are read as `e`, up to lines, on the layer of `e`. -/
def ReadsBack (e : Expr) : Prop :=
  ∀ b ts, ts.map Token.spelling = e.spellings → ts.length ≤ b →
    ∃ e', e'.unlined = e.unlined ∧ ParsesAt b e.layer ts e'

/-- What stands in brackets is read by the parser of whole expressions. -/
lemma ReadsBack.inner {e : Expr} (h : ReadsBack e) (b : Nat) {ts : List Token}
    (hts : ts.map Token.spelling = e.spellings) (hlen : ts.length < b) :
    ∃ e', e'.unlined = e.unlined ∧
      ∀ rest, Follows 0 rest → Reads (exprWithin b) (ts ++ rest) e' rest := by
  obtain ⟨b, rfl⟩ : ∃ n, b = n + 1 := ⟨b - 1, by omega⟩
  obtain ⟨e', hsame, hparse⟩ := h b ts hts (by omega)
  exact ⟨e', hsame, hparse.mono (Nat.zero_le _) (Expr.layer_le_ten e) (by omega)⟩

/-- A rendering is read on the layer of its place: as it is, or as a primary expression if it
stands in parentheses. -/
lemma ReadsBack.rendering {e : Expr} (h : ReadsBack e) (b : Nat) {place : Nat} {ts : List Token}
    (hplace : place ≤ 10) (hts : ts.map Token.spelling = wrap place e.layer e.spellings)
    (hlen : ts.length ≤ b) : ∃ e', e'.unlined = e.unlined ∧ ParsesAt b place ts e' := by
  rcases e.rendering_eq place with ⟨-, hwrap⟩ | ⟨hle, hbare⟩
  · rw [Expr.rendering] at hwrap
    rw [hwrap] at hts
    obtain ⟨init, last, rfl, hinit, hlast⟩ := List.map_eq_append_iff.mp hts
    obtain ⟨left, mid, rfl, hleft, hmid⟩ := List.map_eq_cons_iff.mp hinit
    obtain ⟨right, rfl, hright⟩ := List.map_eq_singleton_iff.mp hlast
    have hshort : mid.length < b := by
      simp only [List.length_append, List.length_cons] at hlen
      omega
    obtain ⟨e', hsame, hread⟩ := h.inner b hmid hshort
    exact ⟨e', hsame, (parses_grouped hleft hright hread).mono hplace le_rfl hlen⟩
  · rw [Expr.rendering] at hbare
    obtain ⟨e', hsame, hparse⟩ := h b ts (hts.trans hbare) hlen
    exact ⟨e', hsame, hparse.mono hle (Expr.layer_le_ten e) hlen⟩

/-- The arguments of a call are read back, from the first of them.

**Proof sketch.** Induction on the arguments. Each of them ends at a comma or at the closing
parenthesis, and takes at least one token, so the steps of the loop suffice. -/
lemma reads_argumentList {args : List Expr} (h : ∀ e ∈ args, ReadsBack e) (hne : args ≠ []) :
    ∀ b steps ts, ts.map Token.spelling = Expr.spellingsOfArgs args → ts.length ≤ b →
      ts.length ≤ steps → ∃ args', Expr.unlinedAll args' = Expr.unlinedAll args ∧
        ∀ rest, Reads (argumentList (exprWithin b) steps) (ts ++ rest) args' rest := by
  induction args with
  | nil => exact absurd rfl hne
  | cons e es ih =>
    intro b steps ts hts hb hsteps
    have he := h e List.mem_cons_self
    cases es with
    | nil =>
      obtain ⟨us, last, rfl, hus, hlast⟩ := List.map_eq_append_iff.mp hts
      obtain ⟨right, rfl, hright⟩ := List.map_eq_singleton_iff.mp hlast
      simp only [List.length_append, List.length_singleton] at hb hsteps
      obtain ⟨steps, rfl⟩ : ∃ n, steps = n + 1 := ⟨steps - 1, by omega⟩
      obtain ⟨e', hsame, hread⟩ := he.inner b hus (by omega)
      refine ⟨[e'], by simp [Expr.unlinedAll, hsame], fun rest => ?_⟩
      rw [List.append_assoc]
      have hends : Follows 0 (right :: rest) := follows_closer hright (by decide) 0 _
      refine (hread _ hends).bind ?_
      exact (reads_acceptOperator_true (Token.isOperator_of_spelling hright) rest).bind
        (reads_pure _ _)
    | cons e₂ es =>
      obtain ⟨us, behind, rfl, hus, hbehind⟩ := List.map_eq_append_iff.mp hts
      obtain ⟨comma, vs, rfl, hcomma, hvs⟩ := List.map_eq_cons_iff.mp hbehind
      simp only [List.length_append, List.length_cons] at hb hsteps
      obtain ⟨steps, rfl⟩ : ∃ n, steps = n + 1 := ⟨steps - 1, by omega⟩
      obtain ⟨e', hsame, hread⟩ := he.inner b hus (by omega)
      obtain ⟨es', hsames, hreads⟩ :=
        ih (fun e he => h e (List.mem_cons_of_mem _ he)) (by simp) b steps vs hvs (by omega)
          (by omega)
      have hsame' : Expr.unlinedAll (e' :: es') = Expr.unlinedAll (e :: e₂ :: es) := by
        rw [Expr.unlinedAll, hsame, hsames, ← Expr.unlinedAll]
      refine ⟨e' :: es', hsame', fun rest => ?_⟩
      rw [List.append_assoc]
      have hends : Follows 0 (comma :: (vs ++ rest)) := follows_closer hcomma (by decide) 0 _
      refine (hread _ hends).bind ?_
      have hno : comma.isOperator ")" = false := Token.isOperator_eq_false hcomma (by decide)
      refine (reads_acceptOperator_false (by simp [hno])).bind ?_
      refine (reads_expectOperator (Token.isOperator_of_spelling hcomma) _).bind ?_
      exact (hreads rest).bind (reads_pure _ _)

/-- The arguments of a call are read back, from the opening parenthesis. -/
lemma reads_arguments {args : List Expr} (h : ∀ e ∈ args, ReadsBack e)
    (hplain : ∀ e ∈ args, e.Plain) (b : Nat) {ts : List Token}
    (hts : ts.map Token.spelling = Expr.spellingsOfArgs args) (hlen : ts.length ≤ b) {left : Token}
    (hleft : left.spelling = sign "(") :
    ∃ args', Expr.unlinedAll args' = Expr.unlinedAll args ∧
      ∀ rest, Reads (arguments (exprWithin b) (b + 1)) (left :: ts ++ rest) args' rest := by
  have hopen := Token.isOperator_of_spelling hleft
  cases args with
  | nil =>
    obtain ⟨right, rfl, hright⟩ := List.map_eq_singleton_iff.mp hts
    refine ⟨[], rfl, fun rest => (reads_expectOperator hopen _).bind ?_⟩
    exact (reads_acceptOperator_true (Token.isOperator_of_spelling hright) rest).bind
      (reads_pure _ _)
  | cons e es =>
    obtain ⟨args', hsame, hread⟩ :=
      reads_argumentList h (by simp) b (b + 1) ts hts hlen (by omega)
    have hstart : StartsExpr (ts.map Token.spelling) := by
      have he := startsExpr_spellings e (hplain e List.mem_cons_self)
      rw [hts]
      cases es with
      | nil => exact he.append _
      | cons e₂ es => exact he.append _
    refine ⟨args', hsame, fun rest => (reads_expectOperator hopen _).bind ?_⟩
    exact (reads_acceptOperator_false (hstart.any_isOperator (.inl rfl) rest)).bind (hread rest)

/-! ## The cases of an expression -/

section Cases

attribute [local simp] Expr.unlined

lemma ReadsBack.binary {left right : Expr} (hleft : ReadsBack left) (hright : ReadsBack right)
    (line : Nat) (op : BinaryOp) : ReadsBack (.binary line op left right) := by
  intro b ts hts hlen
  obtain ⟨us, behind, rfl, hus, hbehind⟩ := List.map_eq_append_iff.mp hts
  obtain ⟨t, vs, rfl, ht, hvs⟩ := List.map_eq_cons_iff.mp hbehind
  have hlen' : us.length + (vs.length + 1) ≤ b := by simpa using hlen
  have h6 := op.layer_le_six
  by_cases hop : op.isAssignment = true
  · obtain ⟨op, rfl⟩ : ∃ a, op = .assign a := by
      cases op <;> simp_all [BinaryOp.isAssignment]
    obtain ⟨l, hl, hlp⟩ := hleft.rendering b (show 1 ≤ 10 by decide) hus (by omega)
    have hvs : vs.map Token.spelling = right.spellings := hvs.trans right.rendering_zero
    obtain ⟨r, hr, hrp⟩ := hright.inner b hvs (by omega)
    refine ⟨.binary t.line (.assign op) l r, by simp [hl, hr], ?_⟩
    exact parses_compound (hlp.layerReads (by decide) (by omega)) hrp ht
  · have hl1 : op.leftLayer = op.layer ∧ op.rightLayer = op.layer + 1 ∧ 1 ≤ op.layer := by
      rcases op with op | _ | _ | op | _ | _ | op <;> first | decide | (cases op <;> decide) | simp_all [BinaryOp.isAssignment]
    obtain ⟨hleftLayer, hrightLayer, hpos⟩ := hl1
    rw [hleftLayer] at hus
    rw [hrightLayer] at hvs
    obtain ⟨l, hl, hlp⟩ := hleft.rendering b (by omega) hus (by omega)
    obtain ⟨r, hr, hrp⟩ := hright.rendering b (by omega) hvs (by omega)
    refine ⟨.binary t.line op l r, by simp [hl, hr], ?_⟩
    exact hlp.binary hpos (hrp.layerReads (by omega) (by omega)) ht hlen

lemma ReadsBack.unary {operand : Expr} (h : ReadsBack operand) (line : Nat) (op : UnaryOp) :
    ReadsBack (.unary line op operand) := by
  intro b ts hts hlen
  simp only [Expr.spellings, UnaryOp.place, UnaryOp.operandLayer] at hts
  simp only [Expr.layer]
  cases hop : op.standsBehind with
  | true =>
    rw [hop] at hts
    obtain ⟨us, last, rfl, hus, hlast⟩ := List.map_eq_append_iff.mp hts
    obtain ⟨t, rfl, ht⟩ := List.map_eq_singleton_iff.mp hlast
    have hlen' : us.length + 1 ≤ b := by simpa using hlen
    obtain ⟨e, he, hep⟩ := h.rendering b (by decide) hus (by omega)
    exact ⟨.unary e.line op e, by simp [he], hep.behind hop ht hlen⟩
  | false =>
    rw [hop] at hts
    obtain ⟨t, us, rfl, ht, hus⟩ := List.map_eq_cons_iff.mp hts
    have hlen' : us.length + 1 ≤ b := by simpa using hlen
    obtain ⟨e, he, hep⟩ := h.rendering b (by decide) hus (by omega)
    exact ⟨.unary t.line op e, by simp [he], hep.front hop ht⟩

lemma ReadsBack.assign {target value : Expr} (htarget : ReadsBack target)
    (hvalue : ReadsBack value) (hplain : value.Plain) (line : Nat) :
    ReadsBack (.assign line target value) := by
  intro b ts hts hlen
  obtain ⟨us, behind, rfl, hus, hbehind⟩ := List.map_eq_append_iff.mp hts
  obtain ⟨t, vs, rfl, ht, hvs⟩ := List.map_eq_cons_iff.mp hbehind
  have hlen' : us.length + (vs.length + 1) ≤ b := by simpa using hlen
  obtain ⟨l, hl, hlp⟩ := htarget.rendering b (by decide) hus (by omega)
  obtain ⟨r, hr, hrp⟩ := hvalue.inner b hvs (by omega)
  have hstart : StartsExpr (vs.map Token.spelling) := hvs ▸ startsExpr_spellings value hplain
  refine ⟨.assign t.line l r, by simp [hl, hr], ?_⟩
  exact parses_assign (hlp.layerReads (by decide) (by omega)) hrp ht
    (hstart.any_isOperator (.inr rfl))

lemma ReadsBack.field {object : Expr} (h : ReadsBack object) (line : Nat) {name : String}
    (hname : BracketFree name) : ReadsBack (.field line object name) := by
  intro b ts hts hlen
  obtain ⟨us, behind, rfl, hus, hbehind⟩ := List.map_eq_append_iff.mp hts
  obtain ⟨dot, vs, rfl, hdot, hvs⟩ := List.map_eq_cons_iff.mp hbehind
  obtain ⟨t, rfl, ht⟩ := List.map_eq_singleton_iff.mp hvs
  have hlen' : us.length + 2 ≤ b := by simpa using hlen
  obtain ⟨e, he, hep⟩ := h.rendering b (by decide) hus (by omega)
  exact ⟨.field t.line e name, by simp [he], hep.field hdot ht hname hlen⟩

lemma ReadsBack.index {array place : Expr} (harray : ReadsBack array) (hplace : ReadsBack place)
    (line : Nat) : ReadsBack (.index line array place) := by
  intro b ts hts hlen
  obtain ⟨init, last, rfl, hinit, hlast⟩ := List.map_eq_append_iff.mp hts
  obtain ⟨us, behind, rfl, hus, hbehind⟩ := List.map_eq_append_iff.mp hinit
  obtain ⟨left, vs, rfl, hleft, hvs⟩ := List.map_eq_cons_iff.mp hbehind
  obtain ⟨right, rfl, hright⟩ := List.map_eq_singleton_iff.mp hlast
  have hlen' : us.length + (vs.length + 2) ≤ b := by simpa using hlen
  obtain ⟨e, he, hep⟩ := harray.rendering b (by decide) hus (by omega)
  obtain ⟨i, hi, hip⟩ := hplace.inner b hvs (by omega)
  exact ⟨.index left.line e i, by simp [he, hi],
    hep.index hleft hright hlen hip⟩

lemma readsBack_call {args : List Expr} (hargs : ∀ e ∈ args, ReadsBack e)
    (hplain : ∀ e ∈ args, e.Plain) (line : Nat) {name : String} (hname : BracketFree name) :
    ReadsBack (.call line name args) := by
  intro b ts hts hlen
  obtain ⟨t, behind, rfl, ht, hbehind⟩ := List.map_eq_cons_iff.mp hts
  obtain ⟨left, vs, rfl, hleft, hvs⟩ := List.map_eq_cons_iff.mp hbehind
  have hlen' : vs.length + 2 ≤ b := by
    rw [List.length_cons, List.length_cons] at hlen
    omega
  obtain ⟨args', hsame, hread⟩ := reads_arguments hargs hplain b hvs (by omega) hleft
  exact ⟨.call t.line name args', by simp [hsame], parses_call hname ht hleft hread⟩

lemma ReadsBack.methodCall {receiver : Expr} (h : ReadsBack receiver) {args : List Expr}
    (hargs : ∀ e ∈ args, ReadsBack e) (hplain : ∀ e ∈ args, e.Plain) (line : Nat)
    {name : String} (hname : BracketFree name) :
    ReadsBack (.methodCall line receiver name args) := by
  intro b ts hts hlen
  obtain ⟨us, behind, rfl, hus, hbehind⟩ := List.map_eq_append_iff.mp hts
  obtain ⟨dot, behind, rfl, hdot, hbehind⟩ := List.map_eq_cons_iff.mp hbehind
  obtain ⟨t, behind, rfl, ht, hbehind⟩ := List.map_eq_cons_iff.mp hbehind
  obtain ⟨left, vs, rfl, hleft, hvs⟩ := List.map_eq_cons_iff.mp hbehind
  have hlen' : us.length + (vs.length + 3) ≤ b := by simpa using hlen
  obtain ⟨e, he, hep⟩ := h.rendering b (by decide) hus (by omega)
  obtain ⟨args', hsame, hread⟩ := reads_arguments hargs hplain b hvs (by omega) hleft
  exact ⟨.methodCall t.line e name args', by simp [he, hsame],
    hep.methodCall hdot ht hname hleft hlen hread⟩

end Cases

lemma plain_of_mem : {es : List Expr} → Expr.AllPlain es → ∀ e ∈ es, e.Plain
  | [], _, _, he => by simp at he
  | _ :: _, h, e, he => by
    rcases List.mem_cons.mp he with rfl | he
    · exact h.1
    · exact plain_of_mem h.2 e he

mutual

/-- **Every plain expression is read back.** Each case puts the tokens of the operands together as
the parser of its layer takes them apart. -/
theorem readsBack_of_plain : (e : Expr) → e.Plain → ReadsBack e
  | .literal line l, h => fun b ts hts _ => by
    obtain ⟨t, rfl, ht⟩ := List.map_eq_singleton_iff.mp hts
    exact ⟨.literal t.line l, rfl, parses_literal b h ht⟩
  | .var line name, h => fun b ts hts _ => by
    obtain ⟨t, rfl, ht⟩ := List.map_eq_singleton_iff.mp hts
    exact ⟨.var t.line name, rfl, parses_var b h ht⟩
  | .binary line op left right, h =>
    (readsBack_of_plain left h.1).binary (readsBack_of_plain right h.2) line op
  | .unary line op operand, h => (readsBack_of_plain operand h).unary line op
  | .call line name args, h =>
    readsBack_call (readsBack_of_mem args h.2) (plain_of_mem h.2) line h.1
  | .methodCall line receiver name args, h =>
    (readsBack_of_plain receiver h.1).methodCall (readsBack_of_mem args h.2.2)
      (plain_of_mem h.2.2) line h.2.1
  | .index line array place, h =>
    (readsBack_of_plain array h.1).index (readsBack_of_plain place h.2) line
  | .field line object name, h => (readsBack_of_plain object h.1).field line h.2
  | .assign line target value, h =>
    (readsBack_of_plain target h.1).assign (readsBack_of_plain value h.2) h.2 line

/-- Every expression of a list of plain ones is read back. -/
theorem readsBack_of_mem : (es : List Expr) → Expr.AllPlain es → ∀ e ∈ es, ReadsBack e
  | [], _, _, he => by simp at he
  | e :: es, h, e', he => by
    rcases List.mem_cons.mp he with hhead | he
    · rw [hhead]
      exact readsBack_of_plain e h.1
    · exact readsBack_of_mem es h.2 e' he

end

/-! ## Whole expressions -/

/-- **Reading inverts rendering.** Take a plain expression and tokens that spell it, on any lines.
In front of a semicolon or of the end of the input, the grammar reads them, and no token more, as
the same expression up to lines.

**Proof sketch.** The expression is read on its own layer (`readsBack_of_plain`), hence on the
loosest one (`ParsesAt.mono`), by every parser with a larger budget than there are tokens; and the
budget of a whole expression is larger than that. -/
theorem expr_inverts_rendering (e : Expr) (he : e.Plain) (ts rest : List Token)
    (hts : ts.map Token.spelling = e.spellings)
    (hrest : ∀ t ∈ rest.head?, t.isOperator ";" = true) (c : Cursor)
    (hc : c.upcoming = ts ++ rest) :
    ∃ e' c', expr.runFrom c = (.ok e', c') ∧ c'.upcoming = rest ∧ e'.unlined = e.unlined := by
  have hfollows : Follows 0 rest := by
    intro t ht
    have hop := hrest t ht
    simp only [Token.isOperator, Bool.and_eq_true, decide_eq_true_eq] at hop
    exact ⟨hop.1, .inl (by simp [closers, hop.2])⟩
  have hlen : ts.length ≤ c.weight := by
    have := c.length_upcoming_le_weight
    rw [hc, List.length_append] at this
    omega
  obtain ⟨e', hsame, hparse⟩ := readsBack_of_plain e he c.weight ts hts hlen
  have hread : LayerReads c.weight 0 ts e' :=
    hparse.mono (Nat.zero_le _) (Expr.layer_le_ten e) hlen
  obtain ⟨c', hrun, hupcoming⟩ := hread rest hfollows c hc
  refine ⟨e', c', ?_, hupcoming, hsame⟩
  rw [expr, runFrom_withBudget]
  exact hrun

/-- The tokens of an expression on one line. -/
def tokensOf (e : Expr) : List Token :=
  e.spellings.map fun s => { kind := s.1, lexeme := s.2, line := 1, id := 0 }

/-- `x = (y - 2) * -(z += 1)[i++].m(true, null) == w`, with lines that no token has. -/
def sampleExpr : Expr :=
  .assign 9 (.var 9 "x")
    (.binary 9 .equal
      (.binary 9 (.arith .mul)
        (.binary 9 (.arith .sub) (.var 9 "y") (.literal 9 ⟨.int 2, "2"⟩))
        (.unary 9 .neg
          (.methodCall 9
            (.index 9 (.binary 9 (.assign .add) (.var 9 "z") (.literal 9 ⟨.int 1, "1"⟩))
              (.unary 9 .postInc (.var 9 "i")))
            "m" [.literal 9 ⟨.boolean true, "true"⟩, .literal 9 ⟨.null, "null"⟩])))
      (.var 9 "w"))

/-- The sample is plain, is rendered with parentheses around the two operands that need them, and
is read back. -/
theorem expr_inverts_rendering_sample :
    sampleExpr.Plain ∧
      (tokensOf sampleExpr).map Token.lexeme =
        ["x", "=", "(", "y", "-", "2", ")", "*", "-", "(", "z", "+=", "1", ")", "[", "i", "++", "]",
          ".", "m", "(", "true", ",", "null", ")", "==", "w"] ∧
      ∃ e' c', expr.runFrom (.ofTokens (tokensOf sampleExpr ++ [⟨.operator, ";", 1, 0⟩])) =
          (.ok e', c') ∧ c'.upcoming = [⟨.operator, ";", 1, 0⟩] ∧
        e'.unlined = sampleExpr.unlined := by
  have hplain : sampleExpr.Plain := by
    simp only [sampleExpr, Expr.Plain, Expr.AllPlain, Literal.Consistent, BracketFree]
    decide
  refine ⟨hplain, by decide, ?_⟩
  refine expr_inverts_rendering sampleExpr hplain (tokensOf sampleExpr) _ ?_ ?_ _ rfl
  · simp [tokensOf, Function.comp_def, Token.spelling]
  · rintro _ ⟨⟩
    rfl

end Grammar

end ClassLang
