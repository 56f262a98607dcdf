import ClassLang.Proofs.Grammar.Appended
import ClassLang.Proofs.Grammar.SignSplitting
import ClassLang.Proofs.Token.Seams

set_option autoImplicit false

/-!
# An index behind an expression
-/

namespace ClassLang

/-- The parser reads all of the tokens, as the value `x`. -/
def Parser.ReadsAll {α : Type} (p : Parser α) (ts : List Token) (x : α) : Prop :=
  (p.runFrom (.ofTokens ts)).1 = .ok x ∧ (p.runFrom (.ofTokens ts)).2.upcoming = []

namespace Grammar

open ClassLang.Parser

/-! ## Operands that are whole expressions -/

section Layers

variable {q : Parser Expr → Nat → Parser Expr} {us rest : List Token} {y : Expr}

/-- No operator of a layer follows. -/
lemma attains_chain (h : Attains (fun e b _ => q e b) us y rest) (hrest : Follows 0 rest)
    (ops : List BinaryOp) : Attains (fun e b _ => chain ops (q e b) b) us y rest := by
  refine h.bind (Attains.start (q := fun e b s => chainFrom ops (q e b) s y) (Attains.step ?_))
  refine attains_of_reads fun e b s => ?_
  rw [Mirror.chainFrom_succ]
  cases rest with
  | nil => exact reads_peek_nil.bind (reads_pure _ _)
  | cons t rest =>
    refine (reads_peek_cons t rest).bind ?_
    simp only [Option.elim_some, (Mirror.signals_binaryOp? ops).ends (hrest t rfl), Option.elim_none]
    exact reads_pure _ _

lemma attains_sum (h : Attains (fun e b _ => product e b) us y rest) (hrest : Follows 0 rest) :
    Attains (fun e b _ => sum e b) us y rest := by
  refine h.bind (Attains.start (q := fun e b s => sumFrom (product e b) s y) (Attains.step ?_))
  refine attains_of_reads fun e b s => ?_
  rw [Mirror.sumFrom_succ]
  cases rest with
  | nil => exact reads_peek_nil.bind (reads_pure _ _)
  | cons t rest =>
    refine (reads_peek_cons t rest).bind ?_
    simp only [Option.elim_some, Mirror.signals_sumSign?.ends (hrest t rfl), Option.elim_none]
    exact reads_pure _ _

/-- An operand that ends where every expression ends is an expression. -/
lemma attains_of_operand (h : Attains (fun e b _ => operand e b) us y rest)
    (hstart : StartsOperand us) (hrest : Follows 0 rest) :
    Attains (fun e _ _ => e) us y rest := by
  obtain ⟨t, more, rfl, hfront⟩ := hstart
  have hunary : Attains (fun e b _ => unaryOf (operand e b) b) (t :: more) y rest := by
    obtain ⟨n, h⟩ := h
    refine Attains.start (q := fun e b s => unaryOf (operand e b) s) (Attains.step ⟨n, ?_⟩)
    intro m b s hm hb hs
    refine (reads_peek_cons t more).bind ?_
    simp only [hfront]
    exact h m b s hm hb hs
  have hproduct : Attains (fun e b _ => product e b) (t :: more) y rest :=
    attains_chain hunary hrest _
  have hequality := attains_chain (attains_chain (attains_sum hproduct hrest) hrest
    [.order .lt, .order .gt, .order .le, .order .ge]) hrest [.equal, .notEqual]
  have hdisjunction : Attains (fun e b _ => disjunction e b) (t :: more) y rest :=
    attains_chain (attains_chain hequality hrest [.and]) hrest [.or]
  refine Attains.knot ?_
  simp only [Mirror.assignment_eq]
  refine hdisjunction.bind (attains_of_reads fun e b _ => ?_)
  cases rest with
  | nil => exact reads_peek_nil.bind (reads_pure _ _)
  | cons u rest =>
    refine (reads_peek_cons u rest).bind ?_
    simp only [Option.elim_some, Mirror.signals_assignSign?.ends (hrest u rfl), Option.elim_none]
    exact reads_pure _ _

end Layers

/-! ## Whole expressions -/

/-- What is read with all large budgets is read with the budget that the tokens ask for. -/
lemma readsAll_of_attains {us : List Token} {y : Expr} (h : Attains (fun e _ _ => e) us y []) :
    expr.ReadsAll us y := by
  obtain ⟨n, h⟩ := h
  obtain ⟨c, hrun, hc⟩ := h (max n (totalWeight us + 1)) n n (le_max_left _ _) le_rfl le_rfl
    (.ofTokens us) rfl
  have hlarge : totalWeight us < max n (totalWeight us + 1) :=
    lt_of_lt_of_le (Nat.lt_succ_self _) (le_max_right _ _)
  have hagree := agree_expr_exprWithin hlarge
  rw [hrun] at hagree
  rcases hexpr : expr.runFrom (.ofTokens us) with ⟨x, d⟩
  rw [hexpr] at hagree
  cases hagree with
  | ok hcursors => exact ⟨by rw [hexpr], by rw [hexpr]; exact hcursors.trans hc⟩

/-- An operand, as the tokens ask for it. -/
def wholeOperand : Parser Expr :=
  withBudget fun budget => operand (exprWithin budget) budget

/-- The tokens are read as `r`, and an index may stand behind them: they are a primary expression,
or an operand that does not end in a step. -/
def Indexable (ts : List Token) (r : Expr) : Prop :=
  primary.ReadsAll ts r ∨ wholeOperand.ReadsAll ts r ∧ ¬ r.IsUnary

/-- A primary expression starts with no operator in front. -/
lemma startsOperand_of_primaryOf (inner : Parser Expr) (budget : Nat) (ts : List Token) :
    Ensures (primaryOf inner budget) ts fun _ _ => StartsOperand ts := by
  refine Ensures.bind (ensures_peekAt 0 ts) ?_
  rintro _ ts ⟨rfl, rfl⟩
  cases ts with
  | nil => exact ensures_failExpected _
  | cons t ts =>
    simp only [List.getElem?_cons_zero]
    by_cases hkind : t.kind = .operator
    · simp only [hkind]
      split
      next hopen =>
        have hnone : leadingOp? t = none := by simp [leadingOp?, Token.isOperator, hopen]
        exact fun _ _ _ _ _ => ⟨t, ts, rfl, hnone⟩
      next => exact ensures_throw _
    · exact fun _ _ _ _ _ => ⟨t, ts, rfl, leadingOp?_eq_none hkind⟩

lemma StartsOperand.of_alike {ts us : List Token} (h : StartsOperand ts) (hus : Alike ts us) :
    StartsOperand us := by
  obtain ⟨t, ts, rfl, ht⟩ := h
  obtain ⟨u, us, rfl, hu, -⟩ := alike_cons.1 hus
  exact ⟨u, us, rfl, (Mirror.leadingOp?_congr hu).trans ht⟩

/-- A parser with a budget has read all of the tokens with some budget. -/
lemma exists_of_readsAll {α : Type} {f : Nat → Parser α} {ts : List Token} {x : α}
    (h : (withBudget f).ReadsAll ts x) :
    ∃ b c, (f b).runFrom (.ofTokens ts) = (.ok x, c) ∧ c.upcoming = [] := by
  obtain ⟨hvalue, hupcoming⟩ := h
  rw [runFrom_withBudget] at hvalue hupcoming
  exact ⟨_, _, Prod.ext hvalue rfl, hupcoming⟩

/-- **What can be indexed is read in front of an index**, up to where the loop behind primary
expressions is entered. -/
lemma Indexable.enters {ts us rest : List Token} {r : Expr} (h : Indexable ts r) (hus : Alike ts us)
    (hrest : OpensNoCall rest) :
    StartsOperand us ∧ ∃ y, same r y ∧ Enters (us ++ rest) y rest := by
  have hrel : (Mirror.appending rest).rel ts (us ++ rest) := ⟨us, rfl, hus⟩
  have hnil : ∀ vs, (Mirror.appending rest).rel [] vs → vs = rest := by
    rintro _ ⟨front, rfl, hfront⟩
    rw [alike_nil.1 hfront, List.nil_append]
  obtain h | ⟨h, hunary⟩ := h
  · obtain ⟨b, c, hrun, hc⟩ := exists_of_readsAll h
    have hwords := Mirror.words_appending b rest
    obtain ⟨y, us', hxy, hrel', henters⟩ := hwords.primaryOf b hrel rfl hrun (fun _ => hrest)
      False.elim
    rw [hc] at hrel'
    exact ⟨(startsOperand_of_primaryOf _ _ ts rfl hrun).of_alike hus, y, hxy,
      hnil us' hrel' ▸ henters⟩
  · obtain ⟨b, c, hrun, hc⟩ := exists_of_readsAll h
    have hwords := Mirror.words_appending b rest
    obtain ⟨x, d, hx, hz⟩ := exists_of_runFrom_bind hrun
    obtain ⟨y, us₁, hxy, hrel₁, henters⟩ := hwords.primaryOf b hrel rfl hx (fun _ => hrest) False.elim
    obtain ⟨-, htrails⟩ := hwords.trailers b b x d.upcoming rfl hz
    obtain ⟨z, us', hrz, hrel', ⟨hleads, -⟩ | ⟨hstep, -⟩⟩ :=
      htrails y us₁ hxy hrel₁ (fun _ => hrest) False.elim
    · rw [hc] at hrel'
      exact ⟨(startsOperand_of_primaryOf _ _ ts rfl hx).of_alike hus, z, hrz,
        hnil us' hrel' ▸ henters.leadsTo hleads⟩
    · exact absurd hstep hunary

/-- An expression is read in front of whatever ends it. -/
lemma attains_of_readsAll {ts us rest : List Token} {x : Expr} (h : expr.ReadsAll ts x)
    (hus : Alike ts us) (hrest : Follows 0 rest) :
    ∃ y, same x y ∧ Attains (fun e _ _ => e) (us ++ rest) y rest := by
  obtain ⟨b, c, hrun, hc⟩ := exists_of_readsAll h
  obtain ⟨y, us', hxy, hrel', hattains⟩ := (Mirror.words_appending b rest).thru.run ⟨us, rfl, hus⟩
    rfl hrun (fun _ => hrest) False.elim
  rw [hc] at hrel'
  obtain ⟨front, rfl, hfront⟩ := hrel'
  rw [alike_nil.1 hfront, List.nil_append] at hattains
  exact ⟨y, hxy, hattains⟩

/-- **An index in brackets of its own**, behind what can be indexed. -/
theorem readsAll_index_apart {ps es us : List Token} {r x : Expr} (hps : Indexable ps r)
    (hes : expr.ReadsAll es x)
    (hus : us.map Token.spelling = ps.map Token.spelling ++
      (.operator, "[") :: (es.map Token.spelling ++ [(.operator, "]")])) :
    ∃ y, expr.ReadsAll us y ∧ y.unlined = .index 0 r.unlined x.unlined := by
  obtain ⟨us₁, us₂, rfl, hus₁, hus₂⟩ := List.map_eq_append_iff.1 hus
  obtain ⟨opening, us₃, rfl, hopening, hus₃⟩ := List.map_eq_cons_iff.1 hus₂
  obtain ⟨us₄, us₅, rfl, hus₄, hus₅⟩ := List.map_eq_append_iff.1 hus₃
  obtain ⟨closing, rfl, hclosing⟩ := List.map_eq_singleton_iff.1 hus₅
  have hopen := Token.isOperator_of_spelling hopening
  have hclose := Token.isOperator_of_spelling hclosing
  have hnocall : OpensNoCall (opening :: (us₄ ++ [closing])) := by
    rintro _ ⟨⟩
    exact Token.isOperator_eq_false hopening (by decide)
  obtain ⟨hstart, y, hry, henters⟩ := hps.enters hus₁ hnocall
  obtain ⟨z, hxz, hindex⟩ := attains_of_readsAll hes hus₄
    (follows_closer (t := closing) hclosing (by decide) 0 [])
  have hend : Attains (fun e b s => trailers e b s (.index opening.line y z)) []
      (.index opening.line y z) [] :=
    Attains.step (attains_of_reads fun e b s => trailers_stop (k := 0) _ (fun t ht => by cases ht))
  have hleads := leadsTo_index (x := y) hopen hclose hindex
  refine ⟨.index opening.line y z, readsAll_of_attains (attains_of_operand
    (henters _ _ (hleads _ _ hend)) (hstart.append _) fun t ht => by cases ht), ?_⟩
  rw [Expr.unlined, ← hry, ← hxz]

/-! ## Texts -/

/-- The tokens that a text has between parentheses. -/
def enclosed (e : String) : List Token :=
  (tokenize ("(" ++ e ++ ")")).tail.dropLast

lemma map_spelling_tokenize (source : String) :
    (tokenize source).map Token.spelling = Scan.spellings none source.toList :=
  map_spelling_tokens .empty source

/-- The tokens between parentheses spell the text, if nothing at its end goes on. -/
lemma map_spelling_enclosed {e : String}
    (h : Scan.endsSealed (some '(') e.toList = true) :
    (enclosed e).map Token.spelling = Scan.spellings (some '(') e.toList := by
  have htokens : (tokenize ("(" ++ e ++ ")")).map Token.spelling =
      (.operator, "(") :: (Scan.spellings (some '(') e.toList ++ [(.operator, ")")]) := by
    have htext : ("(" ++ e ++ ")").toList = '(' :: (e.toList ++ [')']) := by simp
    rw [map_spelling_tokenize, htext, Scan.spellings_bracket (by decide),
      Scan.spellings_append_of_sealed h (by decide), Scan.spellings_nil]
  rw [enclosed, List.map_dropLast, List.map_tail, htokens]
  simp

end Grammar

end ClassLang
