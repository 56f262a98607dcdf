import ClassLang.Proofs.Grammar.DeclRoundTrip

set_option autoImplicit false

/-!
# Reading rendered statements back

The grammar inverts the rendering of statements of every form and to any depth. A statement is read
back wherever no `else` stands behind it, which a conditional without that branch would take.

## Main definitions

* `ClassLang.Grammar.NoElse` — what may stand behind a statement.
* `ClassLang.Stmt.DecodedBy` — a statement is plain, and a parser reads it back.

## Main results

* `ClassLang.Grammar.decodes_stmtWithin`, `ClassLang.Grammar.blockDecodes_of_plain`,
  `ClassLang.Grammar.armsDecode_of_plain` — statements, blocks and the arms of a switch are read
  back.

## Design

Each form of statement has a lemma of its own, in which the inner statements are read by any parser
that reads them back. The induction over statements only has to supply the budgets.
-/

namespace ClassLang

open Spelling (sign word name typeWord wrap)

namespace Grammar

open ClassLang.Parser

/-! ## Headers without colons -/

section Colons

lemma colon_not_mem_wrap {ss : List Spelling} (h : sign ":" ∉ ss) (place layer : Nat) :
    sign ":" ∉ wrap place layer ss := by
  unfold wrap
  split
  · simpa using h
  · exact h

mutual

lemma colon_not_mem_spellings : (e : Expr) → sign ":" ∉ e.spellings
  | .literal _ l => by
    rw [Expr.spellings, List.mem_singleton]
    cases hvalue : l.value <;> simp [Literal.Value.kind]
  | .var _ text => by simp [Expr.spellings]
  | .binary _ op left right => by
    have hop : op.text ≠ ":" := by
      have hall : ∀ op ∈ BinaryOp.all, op.text ≠ ":" := by decide
      exact hall op op.mem_all
    simp [Expr.spellings, colon_not_mem_wrap (colon_not_mem_spellings left),
      colon_not_mem_wrap (colon_not_mem_spellings right), hop.symm]
  | .unary _ op operand => by
    have hop : op.text ≠ ":" := by cases op <;> decide
    have hoperand := colon_not_mem_wrap (colon_not_mem_spellings operand)
    simp only [Expr.spellings, UnaryOp.place]
    split <;> simp [hoperand, hop.symm]
  | .call _ text args => by simp [Expr.spellings, colon_not_mem_spellingsOfArgs args]
  | .methodCall _ receiver text args => by
    simp [Expr.spellings, colon_not_mem_wrap (colon_not_mem_spellings receiver),
      colon_not_mem_spellingsOfArgs args]
  | .index _ array place => by
    simp [Expr.spellings, colon_not_mem_wrap (colon_not_mem_spellings array),
      colon_not_mem_spellings place]
  | .field _ object text => by
    simp [Expr.spellings, colon_not_mem_wrap (colon_not_mem_spellings object)]
  | .assign _ target value => by
    simp [Expr.spellings, colon_not_mem_wrap (colon_not_mem_spellings target),
      colon_not_mem_spellings value]
  | .newObject _ _ _ | .newArray _ _ _ _ | .arrayInit _ _ => by simp [Expr.spellings]

lemma colon_not_mem_spellingsOfArgs : (es : List Expr) → sign ":" ∉ Expr.spellingsOfArgs es
  | [] => by simp [Expr.spellingsOfArgs]
  | [e] => by simp [Expr.spellingsOfArgs, colon_not_mem_spellings e]
  | e :: e' :: es => by
    simp [Expr.spellingsOfArgs, colon_not_mem_spellings e, colon_not_mem_spellingsOfArgs (e' :: es)]

end

lemma colon_not_mem_pairs (dimensions : Nat) : sign ":" ∉ TypeExpr.pairs dimensions := by
  induction dimensions with
  | zero => exact List.not_mem_nil
  | succ dimensions ih => simpa [TypeExpr.pairs] using ih

mutual

lemma colon_not_mem_typeSpellings : (type : TypeExpr) → sign ":" ∉ type.spellings
  | .mk text [] dimensions => by simp [TypeExpr.spellings, (typeWord_ne_sign _ _).symm]
  | .mk text (arg :: args) dimensions => by
    simp [TypeExpr.spellings, (typeWord_ne_sign _ _).symm, colon_not_mem_typeArgs (arg :: args),
      colon_not_mem_pairs]

lemma colon_not_mem_typeArgs : (types : List TypeExpr) → sign ":" ∉ TypeExpr.spellingsOfArgs types
  | [] => by simp [TypeExpr.spellingsOfArgs]
  | [type] => by simp [TypeExpr.spellingsOfArgs, colon_not_mem_typeSpellings type]
  | type :: other :: types => by
    simp [TypeExpr.spellingsOfArgs, colon_not_mem_typeSpellings type,
      colon_not_mem_typeArgs (other :: types)]

end

lemma colon_not_mem_optionalSpellings (e : Option Expr) : sign ":" ∉ optionalSpellings e := by
  cases e with
  | none => exact List.not_mem_nil
  | some e => exact colon_not_mem_spellings e

lemma colon_not_mem_varDecl (d : VarDecl) : sign ":" ∉ d.spellings := by
  obtain ⟨text, type, init, line⟩ := d
  have hinit : sign ":" ∉ initSpellings init := by
    cases init with
    | none => exact List.not_mem_nil
    | some e => simp [initSpellings, colon_not_mem_spellings e]
  simp only [VarDecl.spellings, declaratorSpellings]
  split <;> simp [colon_not_mem_typeSpellings, hinit]

lemma colon_not_mem_clauseSpellings (init : Option ForInit) (c update : Option Expr) :
    sign ":" ∉ clauseSpellings init c update := by
  have hinit : sign ":" ∉ (init.map ForInit.spellings).getD [] := by
    rcases init with _ | (d | e)
    · exact List.not_mem_nil
    · exact colon_not_mem_varDecl d
    · exact colon_not_mem_spellings e
  simp [clauseSpellings, hinit, colon_not_mem_optionalSpellings]

/-- No header of three clauses is taken for that of a range loop. -/
lemma getElem?_clauseSpellings_ne (init : Option ForInit) (c update : Option Expr)
    (rest : List Spelling) :
    (clauseSpellings init c update ++ rest)[2]? ≠ some (sign ":") := by
  have hlen : 2 < (clauseSpellings init c update).length := by
    simp only [clauseSpellings, List.length_append, List.length_cons, List.length_nil]
    omega
  rw [List.getElem?_append_left hlen]
  exact fun h => colon_not_mem_clauseSpellings init c update (List.mem_of_getElem? h)

end Colons

/-! ## First spellings -/

/-- No `else` comes next. -/
def NoElse (rest : List Spelling) : Prop :=
  rest.head? ≠ some (word "else")

/-- The spellings that no statement starts with, because they end the statements before them. -/
def stmtEnds : List Spelling :=
  [sign closeBrace, word "case", word "default", word "else"]

/-- The keywords that a statement of their own starts with. -/
def stmtKeywords : List String :=
  ["if", "while", "do", "for", "switch", "break", "continue", "return", "case", "default"]

/-- Spellings that a declaration or an expression starts with. -/
def BeginsSimple (ss : List Spelling) : Prop :=
  ∃ s rest, ss = s :: rest ∧ s ∉ [sign openBrace, sign ";"] ∧ s ∉ stmtEnds ∧
    (s.1 = .keyword → s.2 ∉ stmtKeywords)

lemma Leads.beginsSimple {s : Spelling} (h : Leads s) (rest : List Spelling) :
    BeginsSimple (s :: rest) := by
  refine ⟨s, rest, rfl, ?_⟩
  rcases h with hliteral | ⟨hkind, hsigns⟩
  · have hall : ∀ s ∈ [word "true", word "false", word "null"],
        s ∉ [sign openBrace, sign ";"] ∧ s ∉ stmtEnds ∧ (s.1 = .keyword → s.2 ∉ stmtKeywords) := by
      decide
    exact hall s hliteral
  · have hwords : ∀ text, s ≠ word text := fun text hs => hkind (congrArg Prod.fst hs)
    simp only [List.mem_cons, List.not_mem_nil, or_false, not_or] at hsigns
    exact ⟨by simp [hsigns], by simp [stmtEnds, hsigns, hwords], fun h => absurd h hkind⟩

lemma beginsSimple_expr {e : Expr} (he : e.Plain) (rest : List Spelling) :
    BeginsSimple (e.spellings ++ rest) := by
  have hbegins := beginsExpr_spellings e he
  match hss : e.spellings, hbegins with
  | s :: more, hs => exact hs.1.beginsSimple (more ++ rest)

lemma beginsSimple_varDecl {d : VarDecl} (hd : d.Plain) (rest : List Spelling) :
    BeginsSimple (d.spellings ++ rest) := by
  rw [VarDecl.spellings]
  split
  case isFalse => exact ⟨word "final", _, rfl, by decide, by decide, by decide⟩
  case isTrue =>
    obtain ⟨text, more, hspellings⟩ := exists_spellings_eq d.type
    have hwords : ∀ keyword, Word.isTypeKeyword keyword = false → typeWord text ≠ word keyword := by
      intro keyword hkeyword heq
      refine head?_spellings_ne hd.type keyword hkeyword [] ?_
      rw [hspellings, heq]
      rfl
    refine ⟨typeWord text, _, by rw [declaratorSpellings, hspellings]; rfl, ?_, ?_, ?_⟩
    · simp [typeWord_ne_sign]
    · simp [stmtEnds, typeWord_ne_sign, hwords "case" (by decide), hwords "default" (by decide),
        hwords "else" (by decide)]
    · intro hkind hmem
      have hall : ∀ keyword ∈ stmtKeywords, Word.isTypeKeyword keyword = false := by decide
      exact hwords text (hall _ hmem) (Prod.ext hkind rfl)

/-- No statement starts with what ends the statements before it. -/
lemma head?_spellings_not_mem {s : Stmt} (h : s.Plain) (rest : List Spelling) :
    ∃ first more, s.spellings ++ rest = first :: more ∧ first ∉ stmtEnds := by
  have hsimple : ∀ {ss : List Spelling}, BeginsSimple ss →
      ∃ first more, ss = first :: more ∧ first ∉ stmtEnds := by
    rintro _ ⟨first, more, rfl, -, hends, -⟩
    exact ⟨first, more, rfl, hends⟩
  cases s with
  | varDecl d =>
    rw [Stmt.spellings, List.append_assoc]
    exact hsimple (beginsSimple_varDecl h _)
  | expr e =>
    rw [Stmt.spellings, List.append_assoc]
    exact hsimple (beginsSimple_expr h _)
  | block body =>
    obtain ⟨line, stmts⟩ := body
    exact ⟨_, _, by rw [Stmt.spellings, Block.spellings]; rfl, by decide⟩
  | _ => exact ⟨_, _, by rw [Stmt.spellings]; rfl, by decide⟩

/-! ## Parts of statements -/

section Parts

variable {p : Parser Stmt} {budget : Nat}

lemma decodes_condition {c : Expr} (hc : c.Plain) (hlen : c.spellings.length < budget) :
    Decodes (condition budget) (conditionSpellings c) Anything (·.1.unlined = c.unlined) := by
  refine (decodes_expectOperator "(").bind_cons fun _ _ => ?_
  refine (decodes_exprWithin hc hlen).bind (fun value hvalue => ?_) fun rest _ =>
    endsExpr_cons (by decide) rest
  exact (decodes_expectOperator ")").bind_pure fun _ _ => hvalue

/-- An expression, or the sign in its place. -/
lemma decodes_exprUnless {e : Option Expr} (he : ∀ e' ∈ e, e'.Plain) {stop : String}
    (hcloser : stop ∈ closers) (hstop : sign stop ∈ [sign ";", sign ")"])
    (hlen : (optionalSpellings e).length < budget) :
    Decodes (exprUnless stop budget) (optionalSpellings e)
      (fun rest => rest.head? = some (sign stop)) (·.map Expr.unlined = e.map Expr.unlined) := by
  cases e with
  | none =>
    exact (decodes_hasOperator stop true).bind_look (decodes_pure rfl) fun _ h => decide_eq_true h
  | some e =>
    have hhead : ∀ rest, (e.spellings ++ rest).head? ≠ some (sign stop) := by
      intro rest hrest
      have hbegins := beginsExpr_spellings e (he e rfl)
      match hss : e.spellings, hbegins with
      | s :: more, ⟨hs, _⟩ =>
        rw [hss] at hrest
        obtain rfl : s = sign stop := Option.some.inj hrest
        rcases hs with hliteral | ⟨-, hsigns⟩
        · simp at hliteral
        · simp only [List.mem_cons, List.not_mem_nil, or_false] at hstop hsigns
          tauto
    refine (decodes_hasOperator stop false).bind_look ?_ fun rest _ => decide_eq_false (hhead rest)
    refine ((decodes_exprWithin (he e rfl) hlen).mono (fun rest hrest => ?_) fun _ => id).bind_pure
      fun value hvalue => ?_
    · exact ⟨stop, hcloser, hrest⟩
    · rw [Option.map_some, hvalue, Option.map_some]

/-- A declaration and its semicolon, where an expression could stand. -/
lemma decodes_atDeclaration_varDecl {β : Type} {d : VarDecl} (hd : d.Plain)
    (hlen : d.spellings.length < budget) (g : VarDecl → β) (other : Parser β) {R : β → Prop}
    (hg : ∀ decl, decl.unlined = d.unlined → R (g decl)) :
    Decodes (do
      if ← atDeclaration then
        let decl ← varDeclWithin budget
        let _ ← expectOperator ";"
        return g decl
      else other) (d.spellings ++ [sign ";"]) Anything R := by
  have hdeclares : ∀ rest, declares (d.spellings ++ [sign ";"] ++ rest) = true := fun rest => by
    rw [List.append_assoc]
    exact declares_varDecl hd _
  refine (decodes_atDeclaration true).bind_look ?_ fun rest _ => hdeclares rest
  refine (decodes_varDeclWithin hd (by omega)).bind (fun decl hdecl => ?_) fun _ _ => rfl
  exact (decodes_expectOperator ";").bind_pure fun _ _ => hg decl hdecl

/-- An expression and its semicolon, where a declaration could stand. -/
lemma decodes_atDeclaration_expr {β : Type} {e : Expr} (he : e.Plain)
    (hlen : e.spellings.length < budget) (g : Expr → β) (other : Parser β) {R : β → Prop}
    (hg : ∀ value, value.unlined = e.unlined → R (g value)) :
    Decodes (do
      if ← atDeclaration then other
      else
        let value ← exprWithin budget
        let _ ← expectOperator ";"
        return g value) (e.spellings ++ [sign ";"]) Anything R := by
  have hdeclares : ∀ rest, declares (e.spellings ++ [sign ";"] ++ rest) = false := fun rest => by
    rw [List.append_assoc]
    exact declares_expr he (endsExpr_cons (by decide) _)
  refine (decodes_atDeclaration false).bind_look ?_ fun rest _ => hdeclares rest
  refine (decodes_exprWithin he hlen).bind (fun value hvalue => ?_) fun rest _ =>
    endsExpr_cons (by decide) rest
  exact (decodes_expectOperator ";").bind_pure fun _ _ => hg value hvalue

lemma decodes_forInit {init : Option ForInit} (h : ∀ i ∈ init, i.Plain)
    (hlen : ((init.map ForInit.spellings).getD []).length < budget) :
    Decodes (forInit budget) ((init.map ForInit.spellings).getD [] ++ [sign ";"]) Anything
      (·.map ForInit.unlined = init.map ForInit.unlined) := by
  have hno : ∀ {ss : List Spelling}, (∀ rest, BeginsSimple (ss ++ rest)) → ∀ rest,
      (ss ++ [sign ";"] ++ rest).head? ≠ some (sign ";") := by
    intro ss hbegins rest hhead
    rw [List.append_assoc] at hhead
    obtain ⟨s, more, hss, hs, -⟩ := hbegins ([sign ";"] ++ rest)
    rw [hss] at hhead
    exact hs (by simp [Option.some.inj hhead])
  rcases init with _ | (d | e)
  · exact (decodes_acceptOperator_true ";").bind_known (decodes_pure rfl)
  · have hd : d.Plain := h _ rfl
    simp only [Option.map_some, Option.getD_some, ForInit.spellings] at hlen ⊢
    refine (decodes_acceptOperator_false ";").bind_look ?_ fun rest _ =>
      hno (beginsSimple_varDecl hd) rest
    refine decodes_atDeclaration_varDecl hd hlen (fun decl => some (ForInit.decl decl)) _
      fun decl hdecl => ?_
    rw [Option.map_some, ForInit.unlined, hdecl, ForInit.unlined]
  · have he : e.Plain := h _ rfl
    simp only [Option.map_some, Option.getD_some, ForInit.spellings] at hlen ⊢
    refine (decodes_acceptOperator_false ";").bind_look ?_ fun rest _ =>
      hno (beginsSimple_expr he) rest
    refine decodes_atDeclaration_expr he hlen (fun value => some (ForInit.expr value)) _
      fun value hvalue => ?_
    rw [Option.map_some, ForInit.unlined, hvalue, ForInit.unlined]

end Parts

/-! ## Statements one after the other -/

end Grammar

/-- A statement is plain, and the parser `p` reads it back. -/
def Stmt.DecodedBy (p : Parser Stmt) (s : Stmt) : Prop :=
  s.Plain ∧ Parser.Decodes p s.spellings Grammar.NoElse (·.unlined = s.unlined)

namespace Grammar

open ClassLang.Parser

section Sequences

variable {p : Parser Stmt} {stmts : List Stmt}

lemma length_le_length_spellingsOfAll (h : ∀ s ∈ stmts, s.Plain) :
    stmts.length ≤ (Stmt.spellingsOfAll stmts).length := by
  induction stmts with
  | nil => exact Nat.zero_le _
  | cons s stmts ih =>
    obtain ⟨first, more, hspellings, -⟩ := head?_spellings_not_mem (h s List.mem_cons_self) []
    have hlen := congrArg List.length hspellings
    have := ih fun s hs => h s (List.mem_cons_of_mem _ hs)
    simp only [Stmt.spellingsOfAll, List.length_cons, List.length_append, List.append_nil] at hlen ⊢
    omega

/-- What follows a statement among others is another statement, or what follows them all. -/
lemma noElse_spellingsOfAll (h : ∀ s ∈ stmts, s.Plain) {rest : List Spelling}
    (hrest : NoElse rest) : NoElse (Stmt.spellingsOfAll stmts ++ rest) := by
  cases stmts with
  | nil => exact hrest
  | cons s stmts =>
    rw [Stmt.spellingsOfAll, List.append_assoc]
    obtain ⟨first, more, hspellings, hends⟩ := head?_spellings_not_mem (h s List.mem_cons_self)
      (Stmt.spellingsOfAll stmts ++ rest)
    rw [hspellings]
    rintro ⟨⟩
    exact hends (by decide)

lemma decodes_stmtsToBrace (h : ∀ s ∈ stmts, s.DecodedBy p) : ∀ {budget : Nat},
    stmts.length < budget →
      Decodes (stmtsToBrace p budget) (Stmt.spellingsOfAll stmts ++ [sign closeBrace]) Anything
        (Stmt.unlinedAll · = Stmt.unlinedAll stmts) := by
  induction stmts with
  | nil =>
    rintro (_ | budget) hlen
    · omega
    · exact (decodes_acceptOperator_true closeBrace).bind_known (decodes_pure rfl)
  | cons s stmts ih =>
    rintro (_ | budget) hlen
    · omega
    · have hplain : ∀ s ∈ stmts, s.Plain := fun s hs => (h s (List.mem_cons_of_mem _ hs)).1
      have hstmts := ih (fun s hs => h s (List.mem_cons_of_mem _ hs)) (Nat.lt_of_succ_lt_succ hlen)
      obtain ⟨hs, hread⟩ := h s List.mem_cons_self
      rw [Stmt.spellingsOfAll, List.append_assoc]
      have hstart : ∀ rest, ∃ first more,
          (s.spellings ++ (Stmt.spellingsOfAll stmts ++ [sign closeBrace])) ++ rest =
            first :: more ∧ first ∉ stmtEnds := fun rest => by
        rw [List.append_assoc]
        exact head?_spellings_not_mem hs _
      refine (decodes_acceptOperator_false closeBrace).bind_look ?_ fun rest _ hhead => ?_
      · refine (decodes_atEnd false).bind_look ?_ fun rest _ => ?_
        · refine hread.bind (fun first hfirst => hstmts.bind_pure fun others hothers => ?_)
            fun rest _ => ?_
          · rw [Stmt.unlinedAll, hfirst, hothers, Stmt.unlinedAll]
          · rw [List.append_assoc]
            exact noElse_spellingsOfAll hplain (by rintro ⟨⟩)
        · obtain ⟨first, more, hspellings, -⟩ := hstart rest
          rw [hspellings]
          rfl
      · obtain ⟨first, more, hspellings, hends⟩ := hstart rest
        rw [hspellings] at hhead
        exact hends (by simp [stmtEnds, Option.some.inj hhead])

/-- The next arm of a switch or its closing brace comes next. -/
def EndsArm (rest : List Spelling) : Prop :=
  ∃ s ∈ [word "case", word "default", sign closeBrace], rest.head? = some s

lemma endsArm_iff (t : Token) :
    endsArm t = true ↔ t.spelling ∈ [word "case", word "default", sign closeBrace] := by
  simp [endsArm, Token.isKeyword_eq_decide, Token.isOperator_eq_decide, or_assoc]

lemma decodes_armStmts (h : ∀ s ∈ stmts, s.DecodedBy p) : ∀ {budget : Nat},
    stmts.length < budget →
      Decodes (armStmts p budget) (Stmt.spellingsOfAll stmts) EndsArm
        (Stmt.unlinedAll · = Stmt.unlinedAll stmts) := by
  induction stmts with
  | nil =>
    rintro (_ | budget) hlen
    · omega
    · intro ts hts
      obtain rfl := List.map_eq_nil_iff.1 hts
      refine ⟨[], rfl, fun rest hrest => ?_⟩
      obtain ⟨s, hs, hhead⟩ := hrest
      obtain ⟨t, rest, rfl, rfl, -⟩ := List.map_eq_cons_iff.1 (List.eq_cons_of_mem_head? hhead)
      refine (reads_peek_cons t rest).bind ?_
      simpa [(endsArm_iff t).2 hs] using reads_pure _ _
  | cons s stmts ih =>
    rintro (_ | budget) hlen
    · omega
    · have hplain : ∀ s ∈ stmts, s.Plain := fun s hs => (h s (List.mem_cons_of_mem _ hs)).1
      have hstmts := ih (fun s hs => h s (List.mem_cons_of_mem _ hs)) (Nat.lt_of_succ_lt_succ hlen)
      obtain ⟨hs, hread⟩ := h s List.mem_cons_self
      have hboth : Decodes (do
          let first ← p
          let others ← armStmts p budget
          return first :: others) (s.spellings ++ Stmt.spellingsOfAll stmts) EndsArm
          (Stmt.unlinedAll · = Stmt.unlinedAll (s :: stmts)) := by
        refine hread.bind (fun first hfirst => hstmts.bind_pure fun others hothers => ?_)
          fun rest hrest => noElse_spellingsOfAll hplain ?_
        · rw [Stmt.unlinedAll, hfirst, hothers, Stmt.unlinedAll]
        · obtain ⟨s, hs, hhead⟩ := hrest
          rw [NoElse, hhead]
          rintro ⟨⟩
          simp at hs
      obtain ⟨first, more, hspellings, hends⟩ := head?_spellings_not_mem hs
        (Stmt.spellingsOfAll stmts)
      rw [Stmt.spellingsOfAll]
      rw [hspellings] at hboth ⊢
      refine decodes_peek_bind fun t ht => ?_
      have hgoes : endsArm t = false := by
        rw [Bool.eq_false_iff, ne_eq, endsArm_iff, ht]
        simp only [stmtEnds, List.mem_cons, List.not_mem_nil, or_false] at hends ⊢
        tauto
      simpa only [hgoes, Bool.false_eq_true, if_false] using hboth

end Sequences

/-! ## Blocks -/

section Forms

variable {p : Parser Stmt} {budget : Nat} {c : Expr} {body : Block}

/-- A body in braces is read back by the parser of blocks. -/
def BlockDecodes (p : Parser Stmt) (budget : Nat) (body : Block) : Prop :=
  Decodes (blockOf p budget) body.spellings Anything (·.unlined = body.unlined)

lemma blockDecodes_mk {line : Nat} {stmts : List Stmt} (h : ∀ s ∈ stmts, s.DecodedBy p)
    (hlen : stmts.length < budget) : BlockDecodes p budget (.mk line stmts) := by
  rw [BlockDecodes, Block.spellings]
  refine (decodes_expectOperator openBrace).bind_cons fun opening _ => ?_
  refine (decodes_stmtsToBrace h hlen).bind_pure fun others hothers => ?_
  rw [Block.unlined, hothers, Block.unlined]

/-- Braces are never left out around a body. -/
lemma BlockDecodes.bodyOf (h : BlockDecodes p budget body) :
    Decodes (bodyOf p budget) body.spellings Anything (·.unlined = body.unlined) := by
  refine (decodes_hasOperator openBrace true).bind_look h fun rest _ => ?_
  obtain ⟨line, stmts⟩ := body
  rw [Block.spellings]
  exact decide_eq_true rfl

/-- A block stands as a statement. -/
lemma BlockDecodes.stmtOf (h : BlockDecodes p budget body) :
    Decodes (stmtOf p budget) body.spellings Anything (·.unlined = (Stmt.block body).unlined) := by
  have hread : Decodes (do return Stmt.block (← blockOf p budget)) body.spellings Anything
      (·.unlined = (Stmt.block body).unlined) :=
    h.bind_pure fun body' hbody => by rw [Stmt.unlined, hbody, Stmt.unlined]
  obtain ⟨line, stmts⟩ := body
  rw [Block.spellings] at hread ⊢
  refine decodes_peek_bind fun t ht => ?_
  simpa only [Token.isOperator_of_spelling ht, if_true] using hread

/-! ## The forms of statements -/

lemma BlockDecodes.ifThen (h : BlockDecodes p budget body) (hc : c.Plain)
    (hlen : c.spellings.length < budget) (line : Nat) :
    Decodes (ifStmt p budget) (Stmt.ifThen line c body).spellings NoElse
      (·.unlined = (Stmt.ifThen line c body).unlined) := by
  rw [Stmt.spellings]
  refine (decodes_expectKeyword "if").bind_cons fun _ _ => ?_
  refine (decodes_condition hc hlen).bind ?_ fun _ _ => trivial
  rintro ⟨value, closing⟩ hvalue
  rw [← List.append_nil body.spellings]
  refine h.bodyOf.bind (fun thenBranch hthen => ?_) fun _ _ => trivial
  refine (decodes_acceptKeyword_false "else").bind_look (decodes_pure ?_) fun _ hrest => hrest
  rw [Stmt.unlined, hthen, show value.unlined = c.unlined from hvalue, Stmt.unlined]

lemma BlockDecodes.ifElse {elseBranch : Block} (h : BlockDecodes p budget body)
    (helse : BlockDecodes p budget elseBranch) (hc : c.Plain) (hlen : c.spellings.length < budget)
    (line : Nat) :
    Decodes (ifStmt p budget) (Stmt.ifElse line c body elseBranch).spellings Anything
      (·.unlined = (Stmt.ifElse line c body elseBranch).unlined) := by
  rw [Stmt.spellings]
  refine (decodes_expectKeyword "if").bind_cons fun _ _ => ?_
  refine (decodes_condition hc hlen).bind ?_ fun _ _ => trivial
  rintro ⟨value, closing⟩ hvalue
  refine h.bodyOf.bind (fun thenBranch hthen => ?_) fun _ _ => trivial
  refine (decodes_acceptKeyword_true "else").bind_known ?_
  refine helse.bodyOf.bind_pure fun elseBranch' helse' => ?_
  rw [Stmt.unlined, hthen, helse', show value.unlined = c.unlined from hvalue, Stmt.unlined]

lemma BlockDecodes.whileLoop (h : BlockDecodes p budget body) (hc : c.Plain)
    (hlen : c.spellings.length < budget) (line : Nat) :
    Decodes (whileStmt p budget) (Stmt.whileLoop line c body).spellings Anything
      (·.unlined = (Stmt.whileLoop line c body).unlined) := by
  rw [Stmt.spellings]
  refine (decodes_expectKeyword "while").bind_cons fun _ _ => ?_
  refine (decodes_condition hc hlen).bind ?_ fun _ _ => trivial
  rintro ⟨value, closing⟩ hvalue
  refine h.bodyOf.bind_pure fun body' hbody => ?_
  rw [Stmt.unlined, hbody, show value.unlined = c.unlined from hvalue, Stmt.unlined]

lemma BlockDecodes.doWhile (h : BlockDecodes p budget body) (hc : c.Plain)
    (hlen : c.spellings.length < budget) (line : Nat) :
    Decodes (doWhileStmt p budget) (Stmt.doWhile line body c).spellings Anything
      (·.unlined = (Stmt.doWhile line body c).unlined) := by
  rw [Stmt.spellings]
  refine (decodes_expectKeyword "do").bind_cons fun _ _ => ?_
  refine h.bodyOf.bind (fun body' hbody => ?_) fun _ _ => trivial
  refine (decodes_expectKeyword "while").bind_cons fun _ _ => ?_
  refine (decodes_condition hc hlen).bind ?_ fun _ _ => trivial
  rintro ⟨value, closing⟩ hvalue
  refine (decodes_expectOperator ";").bind_pure fun _ _ => ?_
  rw [Stmt.unlined, hbody, show value.unlined = c.unlined from hvalue, Stmt.unlined]

lemma BlockDecodes.forLoop {init : Option ForInit} {c update : Option Expr}
    (h : BlockDecodes p budget body) (hinit : ∀ i ∈ init, i.Plain) (hc : ∀ e ∈ c, e.Plain)
    (hupdate : ∀ e ∈ update, e.Plain) (hlen : (clauseSpellings init c update).length < budget)
    (line : Nat) :
    Decodes (forStmt p budget) (Stmt.forLoop line init c update body).spellings Anything
      (·.unlined = (Stmt.forLoop line init c update body).unlined) := by
  simp only [clauseSpellings, List.length_append, List.length_cons, List.length_nil] at hlen
  rw [Stmt.spellings]
  refine (decodes_expectKeyword "for").bind_cons fun keyword _ => ?_
  refine (decodes_expectOperator "(").bind_cons fun _ _ => ?_
  refine (decodes_hasOperatorAt 2 ":" false).bind_look ?_ fun rest _ => ?_
  · -- The semicolons belong to the clauses in front of them.
    have hshape : clauseSpellings init c update ++ body.spellings =
        ((init.map ForInit.spellings).getD [] ++ [sign ";"]) ++ (optionalSpellings c ++
          (sign ";" :: (optionalSpellings update ++ (sign ")" :: body.spellings)))) := by
      simp [clauseSpellings]
    rw [hshape]
    refine (decodes_forInit hinit (by omega)).bind (fun init' hinit' => ?_) fun _ _ => trivial
    refine (decodes_exprUnless hc (by decide) (by decide) (by omega)).bind (fun c' hc' => ?_)
      fun _ _ => rfl
    refine (decodes_expectOperator ";").bind_cons fun _ _ => ?_
    refine (decodes_exprUnless hupdate (by decide) (by decide) (by omega)).bind
      (fun update' hupdate' => ?_) fun _ _ => rfl
    refine (decodes_expectOperator ")").bind_cons fun closing _ => ?_
    refine h.bodyOf.bind_pure fun body' hbody => ?_
    rw [Stmt.unlined, hinit', hc', hupdate', hbody, Stmt.unlined]
  · rw [List.append_assoc]
    exact decide_eq_false (getElem?_clauseSpellings_ne init c update _)

lemma decodes_returnStmt {value : Option Expr} (h : ∀ e ∈ value, e.Plain)
    (hlen : (optionalSpellings value).length < budget) (line line' : Nat) :
    Decodes (returnStmt line' budget) (Stmt.ret line value).spellings Anything
      (·.unlined = (Stmt.ret line value).unlined) := by
  rw [Stmt.spellings]
  refine (decodes_next _).bind_cons fun _ _ => ?_
  refine (decodes_exprUnless h (by decide) (by decide) hlen).bind (fun value' hvalue => ?_)
    fun _ _ => rfl
  refine (decodes_expectOperator ";").bind_pure fun _ _ => ?_
  rw [Stmt.unlined, hvalue, Stmt.unlined]

lemma decodes_jump (s : Spelling) {result expected : Stmt} (h : result.unlined = expected.unlined) :
    Decodes (jump result) [s, sign ";"] Anything (·.unlined = expected.unlined) :=
  (decodes_next s).bind_cons fun _ _ => (decodes_expectOperator ";").bind_pure fun _ _ => h

end Forms

/-! ## The arms of a switch -/

section Arms

variable {p : Parser Stmt} {budget : Nat} {stmts : List Stmt} {arms : List SwitchArm}

lemma decodes_caseLabel {label : Expr} (h : label.IsLabel) :
    Decodes (caseLabel budget) label.spellings Anything (·.unlined = label.unlined) := by
  cases label with
  | literal line l =>
    obtain ⟨hl, hnull⟩ := h
    have hlabel : ∀ t : Token, t.spelling = (l.value.kind, l.text) → isLabel t = true := by
      intro t ht
      obtain ⟨hkind, htext⟩ : t.kind = l.value.kind ∧ t.lexeme = l.text := Prod.ext_iff.1 ht
      obtain ⟨value, text⟩ := l
      cases value with
      | boolean b =>
        obtain rfl : text = _ := hl
        cases b <;> simp_all [isLabel, Token.isKeyword, Literal.Value.kind]
      | null => exact absurd rfl hnull
      | _ => simp_all [isLabel, Literal.Value.kind]
    rw [Expr.spellings]
    refine decodes_peek_bind fun t ht => ?_
    rw [Option.any_some, hlabel t ht]
    exact decodes_token (fun t rest ht => reads_primary_literal _ _ hl ht rest) fun _ _ => rfl
  | _ => exact h.elim

lemma endsArm_spellingsOfAll (arms : List SwitchArm) (rest : List Spelling) :
    EndsArm (SwitchArm.spellingsOfAll arms ++ rest) := by
  match arms with
  | [] => exact ⟨sign closeBrace, by decide, rfl⟩
  | .labelled _ _ (.mk _ _) :: _ =>
    exact ⟨word "case", by decide, by rw [SwitchArm.spellingsOfAll, SwitchArm.spellings]; rfl⟩
  | .otherwise _ (.mk _ _) :: _ =>
    exact ⟨word "default", by decide, by rw [SwitchArm.spellingsOfAll, SwitchArm.spellings]; rfl⟩

/-- The arms of a switch are read back, up to its closing brace. -/
def ArmsDecode (p : Parser Stmt) (budget : Nat) (arms : List SwitchArm) : Prop :=
  Decodes (switchArms p budget) (SwitchArm.spellingsOfAll arms) Anything
    (SwitchArm.unlinedAll · = SwitchArm.unlinedAll arms)

lemma armsDecode_nil (p : Parser Stmt) (budget : Nat) : ArmsDecode p (budget + 1) [] :=
  (decodes_acceptOperator_true closeBrace).bind_known (decodes_pure rfl)

lemma ArmsDecode.labelled (harms : ArmsDecode p budget arms) {label : Expr} (hlabel : label.IsLabel)
    (h : ∀ s ∈ stmts, s.DecodedBy p) (hlen : stmts.length ≤ budget) (line line' : Nat) :
    ArmsDecode p (budget + 1) (.labelled line label (.mk line' stmts) :: arms) := by
  rw [ArmsDecode, SwitchArm.spellingsOfAll, SwitchArm.spellings, List.cons_append,
    List.append_assoc, List.cons_append]
  refine (decodes_acceptOperator_false closeBrace).bind_look ?_ fun rest _ => by simp
  refine decodes_peek_bind fun t ht => ?_
  have hcase : t.isKeyword "case" = true := by rw [t.isKeyword_eq_decide, decide_eq_true ht]
  simp only [hcase, if_true]
  refine (decodes_next _).bind_cons fun _ _ => ?_
  refine (decodes_caseLabel hlabel).bind (fun label' hlabel' => ?_) fun _ _ => trivial
  refine (decodes_expectOperator ":").bind_cons fun _ _ => ?_
  refine (decodes_armStmts h (by omega)).bind (fun stmts' hstmts => ?_) fun rest _ =>
    endsArm_spellingsOfAll arms rest
  refine harms.bind_pure fun arms' harms' => ?_
  rw [SwitchArm.unlinedAll, SwitchArm.unlined, Block.unlined, hlabel', hstmts, harms',
    SwitchArm.unlinedAll, SwitchArm.unlined, Block.unlined]

lemma ArmsDecode.otherwise (harms : ArmsDecode p budget arms) (h : ∀ s ∈ stmts, s.DecodedBy p)
    (hlen : stmts.length ≤ budget) (line line' : Nat) :
    ArmsDecode p (budget + 1) (.otherwise line (.mk line' stmts) :: arms) := by
  rw [ArmsDecode, SwitchArm.spellingsOfAll, SwitchArm.spellings, List.cons_append,
    List.cons_append]
  refine (decodes_acceptOperator_false closeBrace).bind_look ?_ fun rest _ => by simp
  refine decodes_peek_bind fun t ht => ?_
  have hcase : t.isKeyword "case" = false := by rw [t.isKeyword_eq_decide, ht]; decide
  have hdefault : t.isKeyword "default" = true := by rw [t.isKeyword_eq_decide, decide_eq_true ht]
  simp only [hcase, hdefault, if_true, Bool.false_eq_true, if_false]
  refine (decodes_next _).bind_cons fun _ _ => ?_
  refine (decodes_expectOperator ":").bind_cons fun _ _ => ?_
  refine (decodes_armStmts h (by omega)).bind (fun stmts' hstmts => ?_) fun rest _ =>
    endsArm_spellingsOfAll arms rest
  refine harms.bind_pure fun arms' harms' => ?_
  rw [SwitchArm.unlinedAll, SwitchArm.unlined, Block.unlined, hstmts, harms', SwitchArm.unlinedAll,
    SwitchArm.unlined, Block.unlined]

lemma ArmsDecode.switch (harms : ArmsDecode p budget arms) {c : Expr} (hc : c.Plain)
    (hlen : c.spellings.length < budget) (line : Nat) :
    Decodes (switchStmt p budget) (Stmt.switch line c arms).spellings Anything
      (·.unlined = (Stmt.switch line c arms).unlined) := by
  rw [Stmt.spellings]
  refine (decodes_expectKeyword "switch").bind_cons fun _ _ => ?_
  refine (decodes_condition hc hlen).bind ?_ fun _ _ => trivial
  rintro ⟨value, closing⟩ hvalue
  refine (decodes_expectOperator openBrace).bind_cons fun _ _ => ?_
  refine harms.bind_pure fun arms' harms' => ?_
  rw [Stmt.unlined, harms', show value.unlined = c.unlined from hvalue, Stmt.unlined]

end Arms

/-! ## Statements of every form -/

section Dispatch

variable {p : Parser Stmt} {budget : Nat} {ss : List Spelling} {ok : List Spelling → Prop}
  {R : Stmt → Prop}

/-- The keyword at its start decides which statement follows. -/
lemma decodes_stmtOf_keyword {q : Token → Parser Stmt} (keyword : String)
    (hss : ss.head? = some (word keyword))
    (hq : ∀ t : Token, t.lexeme = keyword → keywordStmt p budget t = q t)
    (h : ∀ t, Decodes (q t) ss ok R) : Decodes (stmtOf p budget) ss ok R := by
  obtain ⟨us, rfl⟩ : ∃ us, ss = word keyword :: us := ⟨ss.tail, List.eq_cons_of_mem_head? hss⟩
  refine decodes_peek_bind fun t ht => ?_
  obtain ⟨hkind, hlexeme⟩ : t.kind = .keyword ∧ t.lexeme = keyword := Prod.ext_iff.1 ht
  have hsign : ∀ op, t.isOperator op = false := fun op => by simp [Token.isOperator, hkind]
  simpa only [hsign, Bool.false_eq_true, if_false, hkind, if_true, hq t hlexeme] using h t

lemma keywordStmt_eq_simpleStmt {t : Token} (h : t.lexeme ∉ stmtKeywords) :
    keywordStmt p budget t = simpleStmt budget := by
  simp only [stmtKeywords, List.mem_cons, List.not_mem_nil, or_false, not_or] at h
  simp [keywordStmt, h]

/-- All other statements are declarations and expressions. -/
lemma decodes_stmtOf_simple (hss : BeginsSimple ss) (h : Decodes (simpleStmt budget) ss ok R) :
    Decodes (stmtOf p budget) ss ok R := by
  obtain ⟨s, rest, rfl, hsigns, -, hkeywords⟩ := hss
  simp only [List.mem_cons, List.not_mem_nil, or_false, not_or] at hsigns
  refine decodes_peek_bind fun t ht => ?_
  subst ht
  simp only [Token.isOperator_eq_decide, hsigns, decide_false, Bool.false_eq_true, if_false]
  split
  case isTrue hkind => rwa [keywordStmt_eq_simpleStmt (hkeywords hkind)]
  case isFalse => exact h

end Dispatch

lemma plain_of_mem_stmts : {stmts : List Stmt} → Stmt.AllPlain stmts → ∀ s ∈ stmts, s.Plain
  | [], _, _, hs => by simp at hs
  | _ :: _, h, s, hs => by
    rcases List.mem_cons.1 hs with rfl | hs
    · exact h.1
    · exact plain_of_mem_stmts h.2 s hs

mutual

/-- **Every plain statement is read back.** Each form is read back if the statements inside it are,
and those have fewer spellings, so that a smaller budget suffices for them. -/
theorem decodes_stmtWithin : (s : Stmt) → s.Plain → ∀ budget, s.spellings.length ≤ budget →
    Decodes (stmtWithin (budget + 1)) s.spellings NoElse (·.unlined = s.unlined)
  | .varDecl d, h, budget, hlen => by
    simp only [Stmt.spellings, List.length_append, List.length_singleton] at hlen ⊢
    refine decodes_stmtOf_simple (beginsSimple_varDecl h _) (Decodes.anywhere ?_)
    refine decodes_atDeclaration_varDecl h (by omega) Stmt.varDecl _ fun decl hdecl => ?_
    rw [Stmt.unlined, hdecl, Stmt.unlined]
  | .expr e, h, budget, hlen => by
    simp only [Stmt.spellings, List.length_append, List.length_singleton] at hlen ⊢
    refine decodes_stmtOf_simple (beginsSimple_expr h _) (Decodes.anywhere ?_)
    refine decodes_atDeclaration_expr h (by omega) Stmt.expr _ fun value hvalue => ?_
    rw [Stmt.unlined, hvalue, Stmt.unlined]
  | .block body, h, budget, hlen => by
    rw [Stmt.spellings] at hlen ⊢
    exact (blockDecodes_of_plain body h budget (budget + 1) hlen (by omega)).stmtOf.anywhere
  | .ifThen line c body, h, budget, hlen => by
    simp only [Stmt.spellings, conditionSpellings, List.length_cons, List.length_append] at hlen
    have hbody := blockDecodes_of_plain body h.2 budget (budget + 1) (by omega) (by omega)
    exact decodes_stmtOf_keyword "if" (by rw [Stmt.spellings]; rfl)
      (fun t ht => by simp [keywordStmt, ht]) fun _ => hbody.ifThen h.1 (by omega) line
  | .ifElse line c body elseBranch, h, budget, hlen => by
    simp only [Stmt.spellings, conditionSpellings, List.length_cons, List.length_append] at hlen
    have hbody := blockDecodes_of_plain body h.2.1 budget (budget + 1) (by omega) (by omega)
    have helse := blockDecodes_of_plain elseBranch h.2.2 budget (budget + 1) (by omega) (by omega)
    exact decodes_stmtOf_keyword "if" (by rw [Stmt.spellings]; rfl)
      (fun t ht => by simp [keywordStmt, ht])
      fun _ => (hbody.ifElse helse h.1 (by omega) line).anywhere
  | .whileLoop line c body, h, budget, hlen => by
    simp only [Stmt.spellings, conditionSpellings, List.length_cons, List.length_append] at hlen
    have hbody := blockDecodes_of_plain body h.2 budget (budget + 1) (by omega) (by omega)
    exact decodes_stmtOf_keyword "while" (by rw [Stmt.spellings]; rfl)
      (fun t ht => by simp [keywordStmt, ht])
      fun _ => (hbody.whileLoop h.1 (by omega) line).anywhere
  | .doWhile line body c, h, budget, hlen => by
    simp only [Stmt.spellings, conditionSpellings, List.length_cons, List.length_append] at hlen
    have hbody := blockDecodes_of_plain body h.1 budget (budget + 1) (by omega) (by omega)
    exact decodes_stmtOf_keyword "do" (by rw [Stmt.spellings]; rfl)
      (fun t ht => by simp [keywordStmt, ht]) fun _ => (hbody.doWhile h.2 (by omega) line).anywhere
  | .forLoop line init c update body, h, budget, hlen => by
    simp only [Stmt.spellings, List.length_cons, List.length_append] at hlen
    have hbody := blockDecodes_of_plain body h.2.2.2 budget (budget + 1) (by omega) (by omega)
    exact decodes_stmtOf_keyword "for" (by rw [Stmt.spellings]; rfl)
      (fun t ht => by simp [keywordStmt, ht])
      fun _ => (hbody.forLoop h.1 h.2.1 h.2.2.1 (by omega) line).anywhere
  | .switch line c arms, h, budget, hlen => by
    simp only [Stmt.spellings, conditionSpellings, List.length_cons, List.length_append] at hlen
    have harms := armsDecode_of_plain arms h.2 budget (budget + 1) (by omega) (by omega)
    exact decodes_stmtOf_keyword "switch" (by rw [Stmt.spellings]; rfl)
      (fun t ht => by simp [keywordStmt, ht]) fun _ => (harms.switch h.1 (by omega) line).anywhere
  | .ret line value, h, budget, hlen => by
    simp only [Stmt.spellings, List.length_cons, List.length_append] at hlen
    have hvalue : (optionalSpellings value).length < budget + 1 := by omega
    exact decodes_stmtOf_keyword "return" (by rw [Stmt.spellings]; rfl)
      (fun t ht => by simp [keywordStmt, ht])
      fun t => (decodes_returnStmt h hvalue line t.line).anywhere
  | .breakOff line, _, budget, _ => by
    rw [Stmt.spellings]
    exact decodes_stmtOf_keyword "break" rfl (fun t ht => by simp [keywordStmt, ht])
      fun t => (decodes_jump _ (show (Stmt.breakOff t.line).unlined = _ from rfl)).anywhere
  | .continueOn line, _, budget, _ => by
    rw [Stmt.spellings]
    exact decodes_stmtOf_keyword "continue" rfl (fun t ht => by simp [keywordStmt, ht])
      fun t => (decodes_jump _ (show (Stmt.continueOn t.line).unlined = _ from rfl)).anywhere

/-- Every statement of a list of plain ones is read back. -/
theorem decodedBy_of_mem : (stmts : List Stmt) → Stmt.AllPlain stmts → ∀ budget,
    (Stmt.spellingsOfAll stmts).length < budget → ∀ s ∈ stmts, s.DecodedBy (stmtWithin budget)
  | [], _, _, _, _, hs => by simp at hs
  | s :: stmts, h, budget, hlen, s', hs => by
    rw [Stmt.spellingsOfAll, List.length_append] at hlen
    obtain ⟨n, rfl⟩ : ∃ n, budget = n + 1 := ⟨budget - 1, by omega⟩
    rcases List.mem_cons.1 hs with hhead | hs
    · rw [hhead]
      exact ⟨h.1, decodes_stmtWithin s h.1 n (by omega)⟩
    · exact decodedBy_of_mem stmts h.2 (n + 1) (by omega) s' hs

/-- Every plain block is read back. -/
theorem blockDecodes_of_plain : (body : Block) → body.Plain → ∀ budget steps,
    body.spellings.length ≤ budget → body.spellings.length ≤ steps →
      BlockDecodes (stmtWithin budget) steps body
  | .mk line stmts, h, budget, steps, hbudget, hsteps => by
    rw [Block.spellings, List.length_cons, List.length_append] at hbudget hsteps
    have hcount := length_le_length_spellingsOfAll (plain_of_mem_stmts h)
    exact blockDecodes_mk (decodedBy_of_mem stmts h budget (by omega)) (by omega)

/-- All plain arms of a switch are read back. -/
theorem armsDecode_of_plain : (arms : List SwitchArm) → SwitchArm.AllPlain arms →
    ∀ budget steps, (SwitchArm.spellingsOfAll arms).length ≤ budget →
      (SwitchArm.spellingsOfAll arms).length ≤ steps → ArmsDecode (stmtWithin budget) steps arms
  | [], h, budget, steps + 1, hbudget, hsteps => armsDecode_nil _ _
  | .labelled line label (.mk line' stmts) :: arms, h, budget, steps + 1, hbudget, hsteps => by
    simp only [SwitchArm.spellingsOfAll, SwitchArm.spellings, List.length_append, List.length_cons]
      at hbudget hsteps
    have hcount := length_le_length_spellingsOfAll (plain_of_mem_stmts h.1.2)
    have harms := armsDecode_of_plain arms h.2 budget steps (by omega) (by omega)
    exact harms.labelled h.1.1 (decodedBy_of_mem stmts h.1.2 budget (by omega)) (by omega) line
      line'
  | .otherwise line (.mk line' stmts) :: arms, h, budget, steps + 1, hbudget, hsteps => by
    simp only [SwitchArm.spellingsOfAll, SwitchArm.spellings, List.length_append, List.length_cons]
      at hbudget hsteps
    have hcount := length_le_length_spellingsOfAll (plain_of_mem_stmts h.1)
    have harms := armsDecode_of_plain arms h.2 budget steps (by omega) (by omega)
    exact harms.otherwise (decodedBy_of_mem stmts h.1 budget (by omega)) (by omega) line line'

end

end Grammar

end ClassLang
