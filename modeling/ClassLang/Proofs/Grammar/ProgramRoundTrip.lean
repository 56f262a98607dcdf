import ClassLang.Proofs.Grammar.StmtRoundTrip
import ClassLang.Proofs.Grammar.Termination

set_option autoImplicit false

/-!
# Reading a rendered program back

The grammar inverts the rendering of whole programs: members, classes and programs are read back up
to lines, whatever the lines and numbers of the tokens are.

## Main results

* `ClassLang.Grammar.decodes_memberWithin`, `ClassLang.Grammar.decodes_classDeclWithin` — members
  and classes are read back.
* `ClassLang.Program.ofTokens_inverts_rendering` — a program is read back.
-/

namespace ClassLang

open Spelling (sign word name)

namespace Grammar

open ClassLang.Parser

/-! ## Modifiers -/

/-- No modifier comes next. -/
def EndsModifiers (rest : List Spelling) : Prop :=
  ∀ s ∈ rest.head?, ∀ modifier ∈ modifiers, s ≠ word modifier

lemma isModifier_iff (t : Token) :
    isModifier t = true ↔ ∃ modifier ∈ modifiers, t.spelling = word modifier := by
  simp [isModifier, Token.spelling, Prod.ext_iff, and_comm]

/-- Modifiers are passed over, and `static` is noted. -/
lemma decodes_skipModifiers (words : List String) (h : ∀ text ∈ words, text ∈ modifiers) :
    ∀ {budget : Nat}, words.length < budget →
      Decodes (skipModifiers budget) (words.map word) EndsModifiers
        (· = words.contains "static") := by
  induction words with
  | nil =>
    rintro (_ | budget) hlen
    · omega
    · intro ts hts
      obtain rfl := List.map_eq_nil_iff.1 hts
      refine ⟨false, rfl, fun rest hrest => ?_⟩
      cases rest with
      | nil => exact reads_peek_nil.bind (reads_pure _ _)
      | cons t rest =>
        refine (reads_peek_cons t rest).bind ?_
        have hstops : isModifier t = false := by
          rw [Bool.eq_false_iff, ne_eq, isModifier_iff]
          rintro ⟨modifier, hmem, heq⟩
          exact hrest _ rfl modifier hmem heq
        simpa only [hstops, Bool.false_eq_true, if_false] using reads_pure _ _
  | cons text words ih =>
    rintro (_ | budget) hlen
    · omega
    · have hwords := ih (fun text ht => h text (List.mem_cons_of_mem _ ht))
        (Nat.lt_of_succ_lt_succ hlen)
      rw [List.map_cons]
      refine decodes_peek_bind fun t ht => ?_
      have hgoes : isModifier t = true := (isModifier_iff t).2 ⟨text, h text List.mem_cons_self, ht⟩
      simp only [hgoes, if_true]
      refine (decodes_next _).bind_cons fun _ _ => hwords.bind_pure fun more hmore => ?_
      rw [show t.lexeme = text from congrArg Prod.snd ht, hmore, List.contains_cons]
      simp [Bool.beq_eq_decide_eq, eq_comm]

lemma endsModifiers_cons {s : Spelling} (h : ∀ modifier ∈ modifiers, s ≠ word modifier)
    (rest : List Spelling) : EndsModifiers (s :: rest) := by
  rintro _ ⟨⟩
  exact h

/-- No plain type starts with a modifier. -/
lemma endsModifiers_type {type : TypeExpr} (h : type.Plain) (rest : List Spelling) :
    EndsModifiers (type.spellings ++ rest) := by
  intro s hs modifier hmem heq
  have hall : ∀ modifier ∈ modifiers, Word.isTypeKeyword modifier = false := by decide
  subst heq
  exact head?_spellings_ne h modifier (hall modifier hmem) rest hs

/-! ## Members -/

section Members

variable {budget : Nat}

/-- A declared name is read, and then what stands behind it. -/
lemma decodes_declarator_bind {β : Type} {type : TypeExpr} (htype : type.Plain) {text : String}
    (htext : BracketFree text) (hlen : type.spellings.length ≤ budget)
    {f : String × TypeExpr × Nat → Parser β} {us : List Spelling} {ok : List Spelling → Prop}
    {R : β → Prop} (hf : ∀ line, Decodes (f (text, type, line)) us ok R) :
    Decodes (declarator budget >>= f) (declaratorSpellings type text ++ us) ok R := by
  refine (decodes_declarator htype htext hlen).bind ?_ fun _ _ => trivial
  rintro ⟨_, _, line⟩ ⟨rfl, rfl⟩
  exact hf line

/-- Parameters start with the type of the first one. -/
lemma exists_parameterSpellings_eq (q : Parameter) (qs : List Parameter) :
    ∃ more, Parameter.spellingsOfAll (q :: qs) = q.type.spellings ++ more := by
  cases qs with
  | nil => exact ⟨_, List.append_assoc _ _ _⟩
  | cons q' qs => exact ⟨_, List.append_assoc _ _ _⟩

/-- Parameters are read back, from the first of them. -/
lemma decodes_parameterList : ∀ {params : List Parameter} {budget : Nat}, params ≠ [] →
    (∀ q ∈ params, q.Plain) → (Parameter.spellingsOfAll params).length ≤ budget →
      Decodes (parameterList budget) (Parameter.spellingsOfAll params) Anything
        (·.map Parameter.unlined = params.map Parameter.unlined)
  | [q], budget, _, h, hlen => by
    have hq := h q List.mem_cons_self
    simp only [Parameter.spellingsOfAll, Parameter.spellings, declaratorSpellings,
      List.length_append, List.length_cons] at hlen
    obtain ⟨budget, rfl⟩ : ∃ n, budget = n + 1 := ⟨budget - 1, by omega⟩
    refine (decodes_acceptKeyword_false "final").bind_look ?_ fun rest _ => ?_
    · refine decodes_declarator_bind hq.type hq.name (by omega) fun line => ?_
      exact (decodes_acceptOperator_true ")").bind_known (decodes_pure rfl)
    · obtain ⟨more, hspellings⟩ := exists_parameterSpellings_eq q []
      rw [hspellings, List.append_assoc]
      exact head?_spellings_ne hq.type "final" (by decide) _
  | q :: q' :: qs, budget, _, h, hlen => by
    have hq := h q List.mem_cons_self
    simp only [Parameter.spellingsOfAll, Parameter.spellings, declaratorSpellings,
      List.length_append, List.length_cons] at hlen
    obtain ⟨budget, rfl⟩ : ∃ n, budget = n + 1 := ⟨budget - 1, by omega⟩
    have hqs : Decodes (parameterList budget) (Parameter.spellingsOfAll (q' :: qs)) Anything
        (·.map Parameter.unlined = (q' :: qs).map Parameter.unlined) :=
      decodes_parameterList (by simp) (fun q hq => h q (List.mem_cons_of_mem _ hq)) (by omega)
    refine (decodes_acceptKeyword_false "final").bind_look ?_ fun rest _ => ?_
    · refine decodes_declarator_bind hq.type hq.name (by omega) fun line => ?_
      refine (decodes_acceptOperator_false ")").bind_look ?_ fun _ _ => by simp
      refine (decodes_expectOperator ",").bind_cons fun _ _ => ?_
      refine hqs.bind_pure fun others hothers => ?_
      rw [List.map_cons, hothers]
      rfl
    · obtain ⟨more, hspellings⟩ := exists_parameterSpellings_eq q (q' :: qs)
      rw [hspellings, List.append_assoc]
      exact head?_spellings_ne hq.type "final" (by decide) _

lemma decodes_parameters {params : List Parameter} (h : ∀ q ∈ params, q.Plain)
    (hlen : (Parameter.spellingsOfAll params).length ≤ budget) :
    Decodes (parameters budget) (sign "(" :: Parameter.spellingsOfAll params) Anything
      (·.map Parameter.unlined = params.map Parameter.unlined) := by
  refine (decodes_expectOperator "(").bind_cons fun _ _ => ?_
  cases params with
  | nil => exact (decodes_acceptOperator_true ")").bind_known (decodes_pure rfl)
  | cons q qs =>
    refine (decodes_acceptOperator_false ")").bind_look (decodes_parameterList (by simp) h hlen)
      fun rest _ hhead => ?_
    obtain ⟨text, _, htype⟩ := exists_spellings_eq q.type
    obtain ⟨more, hspellings⟩ := exists_parameterSpellings_eq q qs
    rw [hspellings, htype] at hhead
    exact typeWord_ne_sign _ _ (Option.some.inj hhead)

lemma decodes_skipModifiers_static (isStatic : Bool) (hlen : 1 < budget) :
    Decodes (skipModifiers budget) (staticSpellings isStatic) EndsModifiers (· = isStatic) := by
  cases isStatic with
  | true => exact decodes_skipModifiers ["static"] (by decide) hlen
  | false => exact decodes_skipModifiers [] (by simp) (Nat.zero_lt_of_lt hlen)

/-- **Members are read back.** -/
lemma decodes_memberWithin {m : Member} (h : m.Plain) (hlen : m.spellings.length ≤ budget) :
    Decodes (memberWithin budget) m.spellings Anything (·.unlined = m.unlined) := by
  cases m with
  | field d =>
    obtain ⟨htype, hname, hinit⟩ := h
    simp only [Member.spellings, List.length_append, declaratorSpellings, List.length_cons,
      List.length_nil] at hlen
    refine (decodes_skipModifiers_static d.isStatic (by omega)).bind ?_ fun rest _ => ?_
    · rintro isStatic rfl
      refine decodes_declarator_bind htype hname (by omega) fun line => ?_
      refine (decodes_hasOperator "(" false).bind_look ?_ fun rest _ => ?_
      · refine (decodes_optionalInit hinit (by omega)).bind (fun init hinit' => ?_) fun _ _ => rfl
        refine (decodes_expectOperator ";").bind_pure fun _ _ => ?_
        rw [Member.unlined, hinit', Member.unlined]
      · cases d.init <;> exact decide_eq_false (by simp [initSpellings])
    · rw [declaratorSpellings, List.append_assoc, List.append_assoc]
      exact endsModifiers_type htype _
  | method d =>
    obtain ⟨htype, hname, hparams, hbody⟩ := h
    simp only [Member.spellings, List.length_append, declaratorSpellings, List.length_cons,
      List.length_nil] at hlen
    refine (decodes_skipModifiers_static d.isStatic (by omega)).bind ?_ fun rest _ => ?_
    · rintro isStatic rfl
      refine decodes_declarator_bind htype hname (by omega) fun line => ?_
      refine (decodes_hasOperator "(" true).bind_look ?_ fun _ _ => decide_eq_true rfl
      rw [← List.cons_append]
      refine (decodes_parameters hparams (by omega)).bind (fun params hparams' => ?_)
        fun _ _ => trivial
      have hblock := blockDecodes_of_plain d.body hbody budget budget (by omega) (by omega)
      refine hblock.bind_pure fun body hbody' => ?_
      rw [Member.unlined, hparams', hbody', Member.unlined]
    · rw [declaratorSpellings, List.append_assoc, List.append_assoc]
      exact endsModifiers_type htype _

end Members

/-! ## Classes -/

section Classes

/-- The line of the next token is looked up. -/
lemma decodes_currentLine_bind {β : Type} {f : Nat → Parser β} {s : Spelling} {us : List Spelling}
    {ok : List Spelling → Prop} {R : β → Prop}
    (hf : ∀ line, Decodes (f line) (s :: us) ok R) :
    Decodes (currentLine >>= f) (s :: us) ok R := by
  intro ts hts
  obtain ⟨t, tail, rfl, -, -⟩ := List.map_eq_cons_iff.1 hts
  obtain ⟨y, hy, hread⟩ := hf t.line _ hts
  exact ⟨y, hy, fun rest hrest => (reads_currentLine t (tail ++ rest)).bind (hread rest hrest)⟩

/-- A member starts with `static` or with the word of a type. -/
lemma exists_memberSpellings_eq (m : Member) :
    ∃ first more, m.spellings = first :: more ∧ first ≠ sign closeBrace := by
  have hmember : ∀ (isStatic : Bool) (type : TypeExpr) (text : String) (rest : List Spelling),
      ∃ first more, staticSpellings isStatic ++ (declaratorSpellings type text ++ rest) =
        first :: more ∧ first ≠ sign closeBrace := by
    intro isStatic type text rest
    cases isStatic with
    | true => exact ⟨word "static", _, rfl, by decide⟩
    | false =>
      obtain ⟨first, more, hspellings⟩ := exists_spellings_eq type
      rw [declaratorSpellings, hspellings]
      exact ⟨_, _, rfl, typeWord_ne_sign first closeBrace⟩
  cases m with
  | field d => exact hmember d.isStatic d.type d.name _
  | method d => exact hmember d.isStatic d.returnType d.name _

lemma decodes_membersToBrace {members : List Member} (h : ∀ m ∈ members, m.Plain) :
    ∀ {budget : Nat}, (members.flatMap Member.spellings).length < budget →
      Decodes (membersToBrace budget) (members.flatMap Member.spellings ++ [sign closeBrace])
        Anything (·.map Member.unlined = members.map Member.unlined) := by
  induction members with
  | nil =>
    rintro (_ | budget) hlen
    · omega
    · exact (decodes_acceptOperator_true closeBrace).bind_known (decodes_pure rfl)
  | cons m members ih =>
    rintro (_ | budget) hlen
    · omega
    · obtain ⟨first, more, hspellings, hfirst⟩ := exists_memberSpellings_eq m
      rw [List.flatMap_cons, List.append_assoc]
      rw [List.flatMap_cons, List.length_append] at hlen
      have hpos : 0 < m.spellings.length := by rw [hspellings]; exact Nat.succ_pos _
      have hmembers := ih (fun m hm => h m (List.mem_cons_of_mem _ hm))
        (show _ < budget by omega)
      refine (decodes_acceptOperator_false closeBrace).bind_look ?_ fun rest _ => ?_
      · refine (decodes_atEnd false).bind_look ?_ fun rest _ => ?_
        · refine (decodes_memberWithin (h m List.mem_cons_self) (by omega)).bind
            (fun first hfirst => hmembers.bind_pure fun others hothers => ?_) fun _ _ => trivial
          rw [List.map_cons, hfirst, hothers, List.map_cons]
        · rw [hspellings]
          rfl
      · rw [hspellings]
        exact fun hhead => hfirst (Option.some.inj hhead)

/-- **Classes are read back.** -/
lemma decodes_classDeclWithin {c : ClassDecl} (h : ∀ m ∈ c.members, m.Plain) {budget : Nat}
    (hlen : c.spellings.length ≤ budget) :
    Decodes (classDeclWithin budget) c.spellings Anything (·.unlined = c.unlined) := by
  simp only [ClassDecl.spellings, List.length_cons, List.length_append, List.length_nil] at hlen
  have hskip := decodes_skipModifiers ["public"] (by decide) (show 1 < budget by omega)
  have hmembers := decodes_membersToBrace h (show _ < budget by omega)
  rw [ClassDecl.spellings]
  refine hskip.bind (fun _ _ => ?_) fun rest _ => endsModifiers_cons (by decide) _
  refine (decodes_expectKeyword "class").bind_cons fun _ _ => ?_
  refine (decodes_expectIdentifier c.name).bind_cons fun t ht => ?_
  refine (decodes_hasKeyword "extends" false).bind_look ?_ fun _ _ => decide_eq_false (by simp)
  refine (decodes_hasKeyword "implements" false).bind_look ?_ fun _ _ => decide_eq_false (by simp)
  refine (decodes_expectOperator openBrace).bind_cons fun _ _ => ?_
  refine hmembers.bind_pure fun members hsame => ?_
  rw [ClassDecl.unlined, hsame, show t.lexeme = c.name from congrArg Prod.snd ht, ClassDecl.unlined]

/-- The classes of a program are read back, if nothing stands behind them. -/
lemma decodes_classesToEnd {classes : List ClassDecl}
    (h : ∀ c ∈ classes, ∀ m ∈ c.members, m.Plain) : ∀ {budget : Nat},
    (classes.flatMap ClassDecl.spellings).length < budget →
      Decodes (classesToEnd budget) (classes.flatMap ClassDecl.spellings) (· = [])
        (·.map ClassDecl.unlined = classes.map ClassDecl.unlined) := by
  induction classes with
  | nil =>
    rintro (_ | budget) hlen
    · omega
    · refine (decodes_atEnd true).bind_look (decodes_pure rfl) ?_
      rintro _ rfl
      rfl
  | cons c classes ih =>
    rintro (_ | budget) hlen
    · omega
    · rw [List.flatMap_cons] at hlen ⊢
      have hpos : 0 < c.spellings.length := Nat.succ_pos _
      rw [List.length_append] at hlen
      have hclasses := ih (fun c hc => h c (List.mem_cons_of_mem _ hc)) (show _ < budget by omega)
      refine (decodes_atEnd false).bind_look ?_ fun _ _ => rfl
      refine (decodes_classDeclWithin (h c List.mem_cons_self) (by omega)).bind
        (fun first hfirst => hclasses.bind_pure fun others hothers => ?_) fun _ _ => trivial
      rw [List.map_cons, hfirst, hothers, List.map_cons]

lemma decodes_skipToPublic (budget : Nat) :
    Decodes (skipToPublic (budget + 1)) [] (fun rest => rest.head? = some (word "public"))
      (· = ()) := by
  refine (decodes_look 0 (S := fun o => o = some (word "public")) fun o ho => ?_).mono
    (fun rest hrest => by rwa [← List.head?_eq_getElem?]) fun _ => id
  obtain ⟨t, rfl, ht⟩ := Option.map_eq_some_iff.1 ho
  simp [Token.isKeyword_eq_decide, ht]

/-- The classes of a program are read back, from the first keyword `public`. -/
lemma decodes_classesWithin {p : Program} (h : p.Plain) {budget : Nat}
    (hlen : p.spellings.length < budget) :
    Decodes (classesWithin budget) p.spellings (· = []) (·.unlined = p.unlined) := by
  obtain ⟨_ | ⟨c, classes⟩, line⟩ := p
  · exact absurd rfl h.classes
  have hclasses := decodes_classesToEnd h.members hlen
  obtain ⟨budget, rfl⟩ : ∃ n, budget = n + 1 := ⟨budget - 1, by omega⟩
  refine (decodes_skipToPublic budget).bind_look ?_ fun _ _ => rfl
  refine (decodes_atEnd false).bind_look ?_ fun _ _ => rfl
  refine decodes_currentLine_bind fun line' => ?_
  refine hclasses.bind_pure fun classes' hsame => ?_
  rw [Program.unlined, hsame, Program.unlined]

end Classes

end Grammar

namespace Program

open ClassLang.Parser ClassLang.Grammar

/-- **Parsing inverts rendering.** Take a plain program and tokens that spell it, on any lines and
with any numbers. They are parsed as the same program up to lines.

**Proof sketch.** Every statement is read back (`Grammar.decodes_stmtWithin`), hence every member
and every class, within any budget above the number of spellings; and the budget of a program is
above that. Behind the last class no failure of the source is left. -/
theorem ofTokens_inverts_rendering (p : Program) (hp : p.Plain) (ts : List Token)
    (hts : ts.map Token.spelling = p.spellings) :
    ∃ p', Program.ofTokens ts = .ok p' ∧ p'.unlined = p.unlined := by
  have hlen : p.spellings.length < totalWeight ts + 1 := by
    have hweight := (Cursor.ofTokens ts).length_upcoming_le_weight
    rw [Cursor.weight_eq, Cursor.upcoming_ofTokens] at hweight
    rw [← hts, List.length_map]
    omega
  obtain ⟨p', hsame, hread⟩ := decodes_classesWithin hp hlen ts hts
  refine ⟨p', ?_, hsame⟩
  obtain ⟨c, hrun, -⟩ := hread [] rfl (.ofTokens ts) (by simp)
  obtain ⟨hbefore, hmet⟩ := meets_classesWithin (Nat.le_refl (totalWeight ts + 1))
    (abreast_ofTokens ts).left (by simp) hrun
  rw [Program.ofTokens, program, onTokens_withBudget, onTokens, programWithin_eq,
    runFrom_bind_of_ok hrun, runFrom_unlessFailed hbefore hmet]
  rfl

/-- The tokens of a program on one line. -/
def tokensOf (p : Program) : List Token :=
  p.spellings.map fun s => { kind := s.1, lexeme := s.2, line := 1, id := 0 }

/-- Two classes with types, clauses and statements of many forms inside each other. No token is on
line 9. -/
def nestedProgram : Program where
  line := 9
  classes :=
    [{ name := "A", line := 9, members :=
        [.field
          { name := "table", line := 9, isStatic := true, init := none,
            type := .mk "HashMap" [.simple "String", .mk "List" [.mk "int" [] 1] 2] 0 },
        .method
          { name := "run", line := 9, isStatic := false, returnType := .simple "void",
            params := [⟨"grid", .mk "int" [] 2, 9⟩, ⟨"shape", .simple "Shape", 9⟩],
            body := .mk 9
              [.varDecl ⟨"names", .mk "List" [.simple "String"] 0, some (.var 9 "x"), 9⟩,
              .forLoop 9 (some (.decl ⟨"i", .simple "int", none, 9⟩)) none (some (.var 9 "u"))
                (.mk 9
                  [.ifElse 9 (.var 9 "a")
                    (.mk 9
                      [.switch 9 (.var 9 "k")
                        [.labelled 9 (.literal 9 ⟨.int 1, "1"⟩) (.mk 9 []),
                        .otherwise 9 (.mk 9 [.block (.mk 9 []), .breakOff 9])]])
                    (.mk 9 [.doWhile 9 (.mk 9 [.ifThen 9 (.var 9 "b") (.mk 9 [.ret 9 none])])
                      (.var 9 "c")])])] }] },
      { name := "B", line := 9, members := [] }]

/-- The nested program is plain, is rendered with braces and semicolons in all places, and is read
back. -/
theorem ofTokens_inverts_rendering_nested :
    nestedProgram.Plain ∧
      nestedProgram.tokensOf.map Token.lexeme =
          ["public", "class", "A", openBrace, "static", "HashMap", "<", "String", ",", "List", "<",
            "int[]", ">", "[", "]", "[", "]", ">", "table", ";", "void", "run", "(", "int[][]",
            "grid", ",", "Shape", "shape", ")", openBrace, "final", "List", "<", "String", ">",
            "names", "=", "x", ";", "for", "(", "int", "i", ";", ";", "u", ")", openBrace, "if",
            "(", "a", ")", openBrace, "switch", "(", "k", ")", openBrace, "case", "1", ":",
            "default", ":", openBrace, closeBrace, "break", ";", closeBrace, closeBrace, "else",
            openBrace, "do", openBrace, "if", "(", "b", ")", openBrace, "return", ";", closeBrace,
            closeBrace, "while", "(", "c", ")", ";", closeBrace, closeBrace, closeBrace, closeBrace,
            "public", "class", "B", openBrace, closeBrace] ∧
      ∃ p', Program.ofTokens nestedProgram.tokensOf = .ok p' ∧
        p'.unlined = nestedProgram.unlined := by
  have hplain : nestedProgram.Plain := by
    refine ⟨by simp [nestedProgram], ?_⟩
    simp only [nestedProgram, List.forall_mem_cons, List.not_mem_nil, false_implies, implies_true,
      and_true, Member.Plain, Parameter.plain_iff, VarDecl.plain_iff, ForInit.Plain, Block.Plain,
      Stmt.Plain, Stmt.AllPlain, SwitchArm.Plain, SwitchArm.AllPlain, Expr.Plain, Expr.IsLabel,
      Literal.Consistent, TypeExpr.simple, TypeExpr.Plain, TypeExpr.AllPlain, BracketFree,
      Option.mem_def, Option.some.injEq, forall_eq', ne_eq, reduceCtorEq, not_false_eq_true]
    and_intros <;> decide
  refine ⟨hplain, by decide, ?_⟩
  exact ofTokens_inverts_rendering nestedProgram hplain _
    (by simp [tokensOf, Function.comp_def, Token.spelling])

end Program

end ClassLang
