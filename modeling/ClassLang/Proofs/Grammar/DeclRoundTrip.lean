import ClassLang.Proofs.Grammar.ExprRoundTrip
import ClassLang.Proofs.Grammar.ProgramRendering
import ClassLang.Grammar.Stmt

set_option autoImplicit false

/-!
# Reading rendered declarations back

The spellings of a type, of a declared name and of an initial value are read back, and the look
ahead that tells declarations from expressions is right about the spellings of both.

## Main definitions

* `ClassLang.Grammar.EndsType`, `ClassLang.Grammar.EndsExpr` — what may stand behind a type or a
  whole expression without being drawn into it.
* `ClassLang.Grammar.TypeDecoding` — a way of decoding by which types are read back.
* `ClassLang.Grammar.declares` — whether spellings are taken for a declaration.

## Main results

* `ClassLang.Grammar.decodes_typeExprWithin` — types are read back.
* `ClassLang.Grammar.declares_varDecl`, `ClassLang.Grammar.declares_expr` — declarations are taken
  for declarations, and expressions are not.
* `ClassLang.Grammar.decodes_varDeclWithin` — local declarations are read back.
-/

namespace ClassLang

open Spelling (sign word name typeWord)

/-! ## Words with array suffixes -/

namespace TypeExpr

lemma toList_brackets_succ (dimensions : Nat) :
    (brackets (dimensions + 1)).toList = (brackets dimensions).toList ++ ['[', ']'] := by
  simp [brackets, List.replicate_succ', String.join_append]

end TypeExpr

namespace Word

lemma splitArrayReversed_of_not_mem {cs : List Char} (h : ']' ∉ cs) :
    splitArrayReversed cs = (cs, 0) := by
  cases cs with
  | nil => rfl
  | cons c cs =>
    have hc : c ≠ ']' := fun hc => h (by simp [hc])
    unfold splitArrayReversed
    split
    · simp_all
    · rfl

lemma splitArrayReversed_brackets {cs : List Char} (h : ']' ∉ cs) (dimensions : Nat) :
    splitArrayReversed ((TypeExpr.brackets dimensions).toList.reverse ++ cs) =
      (cs, dimensions) := by
  induction dimensions with
  | zero => exact splitArrayReversed_of_not_mem h
  | succ dimensions ih =>
    rw [TypeExpr.toList_brackets_succ, List.reverse_append]
    simp [splitArrayReversed, ih]

/-- The suffixes of a word are told from a name without brackets. -/
lemma splitArray_append_brackets {text : String} (h : BracketFree text) (dimensions : Nat) :
    splitArray (text ++ TypeExpr.brackets dimensions) = (text, dimensions) := by
  have hmem : ']' ∉ text.toList.reverse := fun hmem => h.2 (List.mem_reverse.1 hmem)
  simp only [splitArray, String.toList_append, List.reverse_append]
  rw [splitArrayReversed_brackets hmem, List.reverse_reverse, String.ofList_toList]

/-- A name without brackets has no suffixes. -/
lemma splitArray_of_bracketFree {text : String} (h : BracketFree text) :
    splitArray text = (text, 0) := by
  have hsplit := splitArray_append_brackets h 0
  rwa [show TypeExpr.brackets 0 = "" from rfl, String.append_empty] at hsplit

lemma splitArrayReversed_spec (cs : List Char) :
    cs = (TypeExpr.brackets (splitArrayReversed cs).2).toList.reverse ++ (splitArrayReversed cs).1 ∧
      ¬ [']', '['] <+: (splitArrayReversed cs).1 := by
  fun_induction splitArrayReversed cs with
  | case1 rest base count hsplit ih =>
    rw [hsplit] at ih
    obtain ⟨hrest, hbase⟩ := ih
    refine ⟨?_, hbase⟩
    rw [TypeExpr.toList_brackets_succ, List.reverse_append, List.append_assoc, ← hrest]
    rfl
  | case2 cs hnone =>
    refine ⟨rfl, ?_⟩
    rintro ⟨rest, rfl⟩
    exact hnone rest rfl

/-- A word is its name with pairs of brackets behind it. -/
lemma eq_append_brackets (word : String) :
    word = (splitArray word).1 ++ TypeExpr.brackets (splitArray word).2 := by
  have hspec := congrArg List.reverse (splitArrayReversed_spec word.toList.reverse).1
  rw [List.reverse_reverse, List.reverse_append, List.reverse_reverse] at hspec
  rw [← String.toList_inj, hspec, splitArray, String.toList_append, String.toList_ofList]

/-- The name does not end with a pair of brackets. -/
lemma not_suffix_splitArray (word : String) : ¬ ['[', ']'] <:+ (splitArray word).1.toList := by
  have hspec := (splitArrayReversed_spec word.toList.reverse).2
  rwa [splitArray, String.toList_ofList, ← List.reverse_prefix, List.reverse_reverse]

/-- Where a name with suffixes is a keyword, it names a type if the name alone does. -/
lemma isTypeKeyword_of_isKeyword {text : String} (hfree : BracketFree text)
    (h : isKeyword text = true → isTypeKeyword text = true) {dimensions : Nat}
    (hkeyword : isKeyword (text ++ TypeExpr.brackets dimensions) = true) :
    isTypeKeyword (text ++ TypeExpr.brackets dimensions) = true := by
  cases dimensions with
  | zero =>
    rw [show TypeExpr.brackets 0 = "" from rfl, String.append_empty] at hkeyword ⊢
    exact h hkeyword
  | succ dimensions =>
    rw [isTypeKeyword, splitArray_append_brackets hfree]
    simp

end Word

namespace Grammar

open ClassLang.Parser

/-! ## Types -/

/-- Neither type arguments nor a pair of brackets come next. -/
def EndsType (rest : List Spelling) : Prop :=
  rest.head? ≠ some (sign "<") ∧ rest.head? ≠ some (sign "[")

lemma endsType_cons {s : Spelling} (hopen : s ≠ sign "<") (hbracket : s ≠ sign "[")
    (rest : List Spelling) : EndsType (s :: rest) :=
  ⟨fun h => hopen (Option.some.inj h), fun h => hbracket (Option.some.inj h)⟩

lemma startsType_of_spelling {t : Token} {text : String}
    (h : Word.isKeyword text = true → Word.isTypeKeyword text = true)
    (ht : t.spelling = typeWord text) : startsType t = true := by
  obtain ⟨hkind, rfl⟩ : t.kind = _ ∧ t.lexeme = text := Prod.ext_iff.1 ht
  unfold startsType
  cases hkeyword : Word.isKeyword t.lexeme with
  | true => simp [h hkeyword, hkind, typeWord, hkeyword]
  | false => simp [hkind, typeWord, hkeyword]

lemma decodes_bracketPairs (dimensions : Nat) : ∀ {budget : Nat}, dimensions < budget →
    Decodes (bracketPairs budget) (TypeExpr.pairs dimensions)
      (fun rest => rest.head? ≠ some (sign "[")) (· = dimensions) := by
  induction dimensions with
  | zero =>
    rintro (_ | budget) hlt
    · omega
    · exact (decodes_hasOperator "[" false).bind_look (decodes_pure rfl) fun _ h =>
        decide_eq_false h
  | succ dimensions ih =>
    rintro (_ | budget) hlt
    · omega
    · refine (decodes_hasOperator "[" true).bind_look ?_ fun _ _ => decide_eq_true rfl
      refine (decodes_hasOperatorAt 1 "]" true).bind_look ?_ fun _ _ => decide_eq_true rfl
      refine (decodes_next _).bind_cons fun _ _ => (decodes_next _).bind_cons fun _ _ => ?_
      exact (ih (by omega)).bind_pure fun count hcount => by rw [hcount]

/-- A word alone is read back as a type. -/
lemma decodes_typeExprOf_nil {arguments : Parser (List TypeExpr × Bool)} {text : String}
    {dimensions : Nat} (hplain : (TypeExpr.mk text [] dimensions).Plain) (budget : Nat) :
    Decodes (typeExprOf arguments (budget + 1)) (TypeExpr.mk text [] dimensions).spellings EndsType
      (· = .mk text [] dimensions) := by
  obtain ⟨hfree, hkeyword, -⟩ := hplain
  have hstarts : ∀ t : Token, t.spelling = typeWord (text ++ TypeExpr.brackets dimensions) →
      startsType t = true := fun t =>
    startsType_of_spelling (Word.isTypeKeyword_of_isKeyword hfree hkeyword)
  rw [TypeExpr.spellings]
  refine (decodes_expectWhere _ hstarts).bind_cons fun t ht => ?_
  have hlexeme : t.lexeme = text ++ TypeExpr.brackets dimensions := congrArg Prod.snd ht
  rw [hlexeme, Word.splitArray_append_brackets hfree]
  refine (decodes_hasOperator "<" false).bind_look ?_ fun _ h => decide_eq_false h.1
  simp only [Bool.and_false, Bool.false_eq_true, if_false, pure_bind]
  exact ((decodes_bracketPairs 0 (by omega)).mono (fun _ h => h.2) fun _ => id).bind_pure
    fun count hcount => by rw [hcount, Nat.add_zero]

lemma typeWord_ne_sign (text op : String) : typeWord text ≠ sign op := by
  intro h
  have hkind : (if Word.isKeyword text then Kind.keyword else Kind.identifier) = .operator :=
    congrArg Prod.fst h
  split at hkind <;> cases hkind

/-- The first spelling of a type is its word. -/
lemma exists_spellings_eq (type : TypeExpr) :
    ∃ text more, type.spellings = typeWord text :: more := by
  obtain ⟨text, _ | ⟨arg, args⟩, dimensions⟩ := type
  · exact ⟨_, _, by rw [TypeExpr.spellings]⟩
  · exact ⟨_, _, by rw [TypeExpr.spellings]⟩

lemma exists_spellingsOfArgs_eq (arg : TypeExpr) (args : List TypeExpr) :
    ∃ text more, TypeExpr.spellingsOfArgs (arg :: args) = typeWord text :: more := by
  obtain ⟨text, more, hspellings⟩ := exists_spellings_eq arg
  cases args with
  | nil => exact ⟨text, more ++ [sign ">"], by rw [TypeExpr.spellingsOfArgs, hspellings]; rfl⟩
  | cons other args => exact ⟨text, _, by rw [TypeExpr.spellingsOfArgs, hspellings]; rfl; simp⟩

lemma length_pairs (dimensions : Nat) : (TypeExpr.pairs dimensions).length = 2 * dimensions := by
  induction dimensions with
  | zero => rfl
  | succ dimensions ih =>
    rw [TypeExpr.pairs, List.length_cons, List.length_cons, ih]
    omega

lemma sign_not_mem_pairs (dimensions : Nat) : sign ">" ∉ TypeExpr.pairs dimensions := by
  induction dimensions with
  | zero => exact List.not_mem_nil
  | succ dimensions ih => simp [TypeExpr.pairs, ih]

/-- A way `D` of decoding spellings by which types are read back. What stands behind the spellings
is seen through `view`, which keeps the signs that a type looks out for. Steps can be put together,
a closing angle bracket is read, and where there is none, all that is decoded as it stands is. -/
structure TypeDecoding (view : List Spelling → List Spelling)
    (D : {α : Type} → Parser α → List Spelling → (List Spelling → Prop) → (α → Prop) → Prop) :
    Prop where
  bind {α β : Type} {p : Parser α} {f : α → Parser β} {ss us : List Spelling}
    {ok ok' : List Spelling → Prop} {P : α → Prop} {R : β → Prop} (hp : D p ss ok P)
    (hf : ∀ x, P x → D (f x) us ok' R) (hok : ∀ rest, ok' rest → ok (us ++ rest)) :
    D (p >>= f) (ss ++ us) ok' R
  of_decodes {α : Type} {p : Parser α} {ss : List Spelling} {ok ok' : List Spelling → Prop}
    {Q : α → Prop} (hp : Decodes p ss ok Q) (hss : sign ">" ∉ ss)
    (hok : ∀ rest, ok' (view rest) → ok rest) : D p ss ok' Q
  closeAngle : D closeAngle [sign ">"] Anything fun _ => True
  head?_view {op : String} (hop : op ∈ ["<", ">", "[", ","]) {ss : List Spelling}
    (h : ss.head? = some (sign op)) : (view ss).head? = some (sign op)
  head?_of_view {ss : List Spelling} (h : (view ss).head? = some (sign "<")) :
    ss.head? = some (sign "<")

namespace TypeDecoding

variable {view : List Spelling → List Spelling}
  {D : {α : Type} → Parser α → List Spelling → (List Spelling → Prop) → (α → Prop) → Prop}
  (h : TypeDecoding view D)
include h

lemma anywhere {α : Type} {p : Parser α} {ss : List Spelling} {ok : List Spelling → Prop}
    {Q : α → Prop} (hp : Decodes p ss Anything Q) (hss : sign ">" ∉ ss) : D p ss ok Q :=
  h.of_decodes hp hss fun _ _ => trivial

lemma bind_cons {α β : Type} {p : Parser α} {f : α → Parser β} {s : Spelling}
    {us : List Spelling} {ok : List Spelling → Prop} {P : α → Prop} {R : β → Prop}
    (hp : Decodes p [s] Anything P) (hs : s ≠ sign ">") (hf : ∀ x, P x → D (f x) us ok R) :
    D (p >>= f) (s :: us) ok R := by
  have hfirst : D p [s] Anything P := h.anywhere hp (by simpa using hs.symm)
  exact h.bind hfirst hf fun _ _ => trivial

lemma bind_pure {α β : Type} {p : Parser α} {g : α → β} {ss : List Spelling}
    {ok : List Spelling → Prop} {P : α → Prop} {R : β → Prop} (hp : D p ss ok P)
    (hg : ∀ x, P x → R (g x)) : D (p >>= fun x => pure (g x)) ss ok R := by
  have hlast : D (p >>= fun x => pure (g x)) (ss ++ []) ok R :=
    h.bind hp (fun x hx => h.anywhere (decodes_pure (hg x hx)) List.not_mem_nil) fun _ => id
  rwa [List.append_nil] at hlast

/-- An operator that does not come next is not consumed. -/
lemma acceptOperator_false {op : String} (hop : op ∈ ["<", ">", "[", ","]) {β : Type}
    {f : Bool → Parser β} {us : List Spelling} {ok : List Spelling → Prop} {R : β → Prop}
    (hf : D (f false) us ok R) (hok : ∀ rest, ok rest → (us ++ rest).head? ≠ some (sign op)) :
    D (acceptOperator op >>= f) us ok R := by
  have hlook : D (acceptOperator op) [] (fun rest => rest.head? ≠ some (sign op)) (· = false) :=
    h.of_decodes (decodes_acceptOperator_false op) List.not_mem_nil fun _ hhead hsome =>
      hhead (h.head?_view hop hsome)
  exact h.bind hlook (fun _ hx => hx ▸ hf) hok

lemma endsType_of_view {ss : List Spelling} (hends : EndsType (view ss)) : EndsType ss :=
  ⟨fun hopen => hends.1 (h.head?_view (by decide) hopen),
    fun hbracket => hends.2 (h.head?_view (by decide) hbracket)⟩

/-- A word with type arguments is read back as a type if the arguments are. -/
lemma typeExprOf_cons {arguments : Parser (List TypeExpr × Bool)} {text : String}
    {arg : TypeExpr} {args : List TypeExpr} {dimensions budget : Nat}
    (hplain : (TypeExpr.mk text (arg :: args) dimensions).Plain) (hbudget : dimensions < budget)
    (hargs : D arguments (sign "<" :: TypeExpr.spellingsOfArgs (arg :: args)) Anything
      (·.1 = arg :: args)) :
    D (typeExprOf arguments budget) (TypeExpr.mk text (arg :: args) dimensions).spellings EndsType
      (· = .mk text (arg :: args) dimensions) := by
  obtain ⟨hfree, hkeyword, -⟩ := hplain
  have hopens : D (hasOperator "<") [] (fun rest => rest.head? = some (sign "<")) (· = true) :=
    h.of_decodes (decodes_hasOperator "<" true) List.not_mem_nil fun _ hhead =>
      decide_eq_true (h.head?_of_view hhead)
  have hpairs : D (bracketPairs budget) (TypeExpr.pairs dimensions) EndsType (· = dimensions) :=
    h.of_decodes (decodes_bracketPairs dimensions hbudget) (sign_not_mem_pairs dimensions)
      fun _ hends => (h.endsType_of_view hends).2
  rw [TypeExpr.spellings]
  refine h.bind_cons (decodes_expectWhere _ fun t => startsType_of_spelling hkeyword)
    (typeWord_ne_sign text ">") fun t ht => ?_
  have hlexeme : t.lexeme = text := congrArg Prod.snd ht
  rw [hlexeme, Word.splitArray_of_bracketFree hfree]
  refine h.bind hopens ?_ fun _ _ => rfl
  rintro _ rfl
  simp only [Bool.and_true, decide_true, if_true, map_eq_pure_bind, bind_assoc, pure_bind]
  rw [← List.cons_append]
  refine h.bind hargs (fun pair hpair => ?_) fun _ _ => trivial
  exact h.bind_pure hpairs fun count hcount => by rw [hpair, hcount, Nat.zero_add]

/-- A list of type arguments is read back if the types behind the opening bracket are. -/
lemma typeArgumentsOf {type : Parser TypeExpr} {budget : Nat} {arg : TypeExpr}
    {args : List TypeExpr}
    (hlist : D (typeList type budget) (TypeExpr.spellingsOfArgs (arg :: args)) Anything
      (· = arg :: args)) :
    D (typeArgumentsOf type budget) (sign "<" :: TypeExpr.spellingsOfArgs (arg :: args)) Anything
      (·.1 = arg :: args) := by
  refine h.bind_cons (decodes_expectOperator "<") (by decide) fun _ _ => ?_
  refine h.acceptOperator_false (by decide) (h.bind_pure hlist fun _ => id) fun rest _ => ?_
  obtain ⟨text, more, hspellings⟩ := exists_spellingsOfArgs_eq arg args
  rw [hspellings]
  exact fun hhead => typeWord_ne_sign _ _ (Option.some.inj hhead)

mutual

/-- **Types are read back.** -/
theorem typeExprWithin : (type : TypeExpr) → type.Plain → ∀ {budget : Nat},
    type.spellings.length ≤ budget →
      D (typeExprWithin budget) type.spellings EndsType (· = type)
  | .mk text [] dimensions, hplain, budget, hlen => by
    obtain ⟨budget, rfl⟩ : ∃ n, budget = n + 1 := Nat.exists_eq_add_one.2 hlen
    refine h.of_decodes (decodes_typeExprOf_nil hplain budget) ?_ fun _ => h.endsType_of_view
    simp [TypeExpr.spellings, (typeWord_ne_sign _ ">").symm]
  | .mk text (arg :: args) dimensions, hplain, budget, hlen => by
    simp only [TypeExpr.spellings, List.length_cons, List.length_append, length_pairs] at hlen
    obtain ⟨budget, rfl⟩ : ∃ n, budget = n + 1 := ⟨budget - 1, by omega⟩
    have hargs := typeList (arg :: args) (by simp) hplain.2.2 budget budget (by omega) (by omega)
    exact h.typeExprOf_cons hplain (by omega) (h.typeArgumentsOf hargs)

/-- Type arguments are read back, from the first of them. -/
theorem typeList : (args : List TypeExpr) → args ≠ [] → TypeExpr.AllPlain args →
    ∀ budget steps : Nat, (TypeExpr.spellingsOfArgs args).length ≤ budget →
      (TypeExpr.spellingsOfArgs args).length ≤ steps →
        D (Grammar.typeList (Grammar.typeExprWithin budget) steps) (TypeExpr.spellingsOfArgs args)
          Anything (· = args)
  | [], hne, _, _, _, _, _ => absurd rfl hne
  | [arg], _, hplain, budget, steps, hbudget, hsteps => by
    simp only [TypeExpr.spellingsOfArgs, List.length_append, List.length_singleton]
      at hbudget hsteps
    obtain ⟨steps, rfl⟩ : ∃ n, steps = n + 1 := ⟨steps - 1, by omega⟩
    rw [TypeExpr.spellingsOfArgs]
    refine h.bind (typeExprWithin arg hplain.1 (by omega)) (fun first hfirst => ?_)
      fun rest _ => endsType_cons (by decide) (by decide) rest
    refine h.acceptOperator_false (by decide) ?_ fun _ _ => by simp
    exact h.bind_pure h.closeAngle fun _ _ => by rw [hfirst]
  | arg :: other :: args, _, hplain, budget, steps, hbudget, hsteps => by
    simp only [TypeExpr.spellingsOfArgs, List.length_append, List.length_cons] at hbudget hsteps
    obtain ⟨steps, rfl⟩ : ∃ n, steps = n + 1 := ⟨steps - 1, by omega⟩
    have hothers := typeList (other :: args) (by simp) hplain.2 budget steps (by omega) (by omega)
    rw [TypeExpr.spellingsOfArgs]
    · refine h.bind (typeExprWithin arg hplain.1 (by omega)) (fun first hfirst => ?_)
        fun rest _ => endsType_cons (by decide) (by decide) _
      refine h.bind_cons (decodes_acceptOperator_true ",") (by decide) fun _ haccepted => ?_
      rw [if_pos haccepted]
      exact h.bind_pure hothers fun others hsame => by rw [hfirst, hsame]
    · simp

end

end TypeDecoding

lemma typeDecoding_decodes : TypeDecoding id Decodes where
  bind := Decodes.bind
  of_decodes hp _ hok := hp.mono hok fun _ => id
  closeAngle := by
    have hcloses : ∀ t : Token, t.spelling = sign ">" → closesAngle t = true := fun t ht => by
      rw [closesAngle, Token.isOperator_of_spelling ht, Bool.true_or, Bool.true_or]
    refine (decodes_expectWhere _ hcloses).bind_cons fun t ht => ?_
    have hlexeme : t.lexeme = ">" := congrArg Prod.snd ht
    simpa [hlexeme] using decodes_pure trivial
  head?_view _ _ h := h
  head?_of_view h := h

/-- **Types are read back.** -/
lemma decodes_typeExprWithin {type : TypeExpr} (htype : type.Plain) {budget : Nat}
    (hlen : type.spellings.length ≤ budget) :
    Decodes (typeExprWithin budget) type.spellings EndsType (· = type) :=
  typeDecoding_decodes.typeExprWithin type htype hlen

/-! ## Whole expressions -/

/-- A sign comes next that ends every expression. -/
def EndsExpr (rest : List Spelling) : Prop :=
  ∃ text ∈ closers, rest.head? = some (sign text)

lemma endsExpr_cons {text : String} (h : text ∈ closers) (rest : List Spelling) :
    EndsExpr (sign text :: rest) :=
  ⟨text, h, rfl⟩

lemma decodes_exprWithin {e : Expr} (he : e.Plain) {budget : Nat}
    (hlen : e.spellings.length < budget) :
    Decodes (exprWithin budget) e.spellings EndsExpr (·.unlined = e.unlined) := by
  intro ts hts
  have hlen' : ts.length < budget := by rwa [← hts, List.length_map] at hlen
  obtain ⟨e', hsame, hread⟩ := (readsBack_of_plain e he).inner budget hts hlen'
  refine ⟨e', hsame, fun rest hrest => hread rest ?_⟩
  obtain ⟨text, htext, hhead⟩ := hrest
  intro t ht
  rw [List.head?_map, Option.mem_def.1 ht] at hhead
  obtain ⟨hkind, rfl⟩ : t.kind = .operator ∧ t.lexeme = text :=
    Prod.ext_iff.1 (Option.some.inj hhead)
  exact ⟨hkind, .inl htext⟩

lemma StartsExpr.head?_ne {ss : List Spelling} (h : StartsExpr ss) (rest : List Spelling) :
    (ss ++ rest).head? ≠ some (sign ")") ∧ (ss ++ rest).head? ≠ some (sign openBrace) := by
  obtain ⟨s, more, rfl, hclose, hopen⟩ := h
  exact ⟨fun hs => hclose (Option.some.inj hs), fun hs => hopen (Option.some.inj hs)⟩

/-! ## Declarations -/

lemma decodes_declarator {type : TypeExpr} (htype : type.Plain) {text : String}
    (htext : BracketFree text) {budget : Nat} (hlen : type.spellings.length ≤ budget) :
    Decodes (declarator budget) (declaratorSpellings type text) Anything
      (fun x => x.1 = text ∧ x.2.1 = type) := by
  refine (decodes_typeExprWithin htype hlen).bind (fun type' htype' => ?_)
    fun rest _ => endsType_cons (by simp) (by simp) rest
  refine (decodes_expectIdentifier text).bind_cons fun t ht => ?_
  have hsplit : splitDeclarator t.lexeme = (text, 0) := by
    rw [show t.lexeme = text from congrArg Prod.snd ht]
    exact Word.splitArray_of_bracketFree htext
  rw [hsplit, htype']
  exact decodes_pure ⟨rfl, by cases type; rfl⟩

lemma decodes_optionalInit {init : Option Expr} (h : ∀ e ∈ init, e.Plain) {budget : Nat}
    (hlen : (initSpellings init).length ≤ budget) :
    Decodes (optionalInit budget) (initSpellings init) (fun rest => rest.head? = some (sign ";"))
      (·.map Expr.unlined = init.map Expr.unlined) := by
  cases init with
  | none =>
    refine (decodes_acceptOperator_false "=").bind_look (decodes_pure rfl) fun rest hrest => ?_
    rw [initSpellings, List.nil_append, hrest]
    decide
  | some e =>
    refine (decodes_acceptOperator_true "=").bind_known ?_
    have hbrace := (startsExpr_spellings e (h e rfl)).head?_ne
    have hread : Decodes (initializerOf (exprWithin budget) budget) e.spellings EndsExpr
        (·.unlined = e.unlined) :=
      (decodes_hasOperator openBrace false).bind_look (decodes_exprWithin (h e rfl) hlen)
        fun rest _ => decide_eq_false (hbrace rest).2
    refine (hread.mono (fun rest hrest => ?_) fun _ => id).bind_pure fun value hvalue => ?_
    · exact ⟨";", by decide, hrest⟩
    · rw [Option.map_some, hvalue, Option.map_some]

/-! ## Telling declarations from expressions -/

/-- Whether spellings are taken for the declaration of a local variable. -/
def declares : List Spelling → Bool
  | [] => false
  | s :: rest =>
    if s = word "final" then true
    else if s.1 = .keyword && Word.isTypeKeyword s.2 then rest.head? ≠ some (sign ".")
    else if s.1 = .identifier then rest.head?.any fun s => s.1 = .identifier
    else false

lemma decodes_atDeclaration (b : Bool) :
    Decodes atDeclaration [] (fun rest => declares rest = b) (· = b) := by
  intro ts hts
  obtain rfl := List.map_eq_nil_iff.1 hts
  refine ⟨b, rfl, fun rest hrest => ?_⟩
  cases rest with
  | nil => exact reads_peek_nil.bind (hrest ▸ reads_pure _ _)
  | cons t rest =>
    refine (reads_peek_cons t rest).bind ?_
    simp only [List.map_cons, declares, List.head?_map] at hrest
    simp only [Token.isKeyword_eq_decide, decide_eq_true_eq]
    split at hrest
    case isTrue hfinal =>
      rw [if_pos hfinal, hrest]
      exact reads_pure _ _
    case isFalse hfinal =>
      rw [if_neg hfinal]
      split at hrest
      case isTrue htype =>
        rw [if_pos (by exact htype), ← hrest]
        refine (reads_hasOperatorAt 1 "." (t :: rest)).bind ?_
        cases rest with
        | nil => exact reads_pure _ _
        | cons u rest => simpa [Token.isOperator_eq_decide] using reads_pure _ _
      case isFalse htype =>
        rw [if_neg (by exact htype)]
        split at hrest
        case isTrue hname =>
          rw [if_pos (by exact hname), ← hrest]
          cases rest <;> exact reads_peekAt 1 _ |>.bind (reads_pure _ _)
        case isFalse hname =>
          rw [if_neg (by exact hname), hrest]
          exact reads_pure _ _

/-- A type word with a name behind it is taken for a declaration. -/
lemma declares_typeWord {text : String}
    (h : Word.isKeyword text = true → Word.isTypeKeyword text = true) (declared : String)
    (rest : List Spelling) : declares (typeWord text :: name declared :: rest) = true := by
  unfold declares
  cases hkeyword : Word.isKeyword text with
  | true => simp [typeWord, hkeyword, h hkeyword]
  | false => simp [typeWord, hkeyword]

/-- A plain declaration is taken for one. -/
lemma declares_varDecl {d : VarDecl} (h : d.Plain) (rest : List Spelling) :
    declares (d.spellings ++ rest) = true := by
  obtain ⟨declared, ⟨text, args, dimensions⟩, init, line⟩ := d
  obtain ⟨⟨hfree, hkeyword, -⟩, -, -⟩ := h
  cases args with
  | nil =>
    simp only [VarDecl.spellings, TypeExpr.isTelling, TypeExpr.args, List.isEmpty_nil,
      Bool.true_or, if_true, declaratorSpellings, TypeExpr.spellings]
    exact declares_typeWord (Word.isTypeKeyword_of_isKeyword hfree hkeyword) _ _
  | cons arg args =>
    cases hname : Word.isKeyword text with
    | true =>
      simp only [VarDecl.spellings, TypeExpr.isTelling, TypeExpr.name, hname, Bool.or_true, if_true,
        declaratorSpellings, TypeExpr.spellings]
      simp [declares, typeWord, hname, hkeyword hname]
    | false =>
      simp [VarDecl.spellings, TypeExpr.isTelling, TypeExpr.name, TypeExpr.args, hname, declares]

/-- The first spellings of a literal, a name, a prefix or a parenthesis: no keyword but a literal,
and no sign that ends or opens something else. -/
def Leads (s : Spelling) : Prop :=
  s ∈ [word "true", word "false", word "null"] ∨
    s.1 ≠ .keyword ∧ s ∉ [sign ";", sign ")", sign openBrace, sign closeBrace]

/-- No name comes next. -/
def StartsNoName (rest : List Spelling) : Prop :=
  ∀ s ∈ rest.head?, s.1 ≠ .identifier

/-- Spellings that an expression can start with. No name stands behind a name at their start. -/
def BeginsExpr : List Spelling → Prop
  | [] => False
  | s :: rest => Leads s ∧ (s.1 = .identifier → StartsNoName rest)

lemma startsNoName_sign (op : String) (rest : List Spelling) : StartsNoName (sign op :: rest) := by
  rintro _ ⟨⟩
  simp

lemma EndsExpr.startsNoName {rest : List Spelling} (h : EndsExpr rest) : StartsNoName rest := by
  obtain ⟨text, -, hhead⟩ := h
  rintro s hs
  rw [hhead] at hs
  cases hs
  simp

lemma BeginsExpr.append {ss rest : List Spelling} (h : BeginsExpr ss) (hrest : StartsNoName rest) :
    BeginsExpr (ss ++ rest) := by
  match ss, h with
  | [s], ⟨hs, _⟩ => exact ⟨hs, fun _ => hrest⟩
  | s :: _ :: _, h => exact h

lemma BeginsExpr.wrap {ss : List Spelling} (h : BeginsExpr ss) (place layer : Nat) :
    BeginsExpr (Spelling.wrap place layer ss) := by
  unfold Spelling.wrap
  split
  · exact ⟨.inr ⟨by decide, by decide⟩, nofun⟩
  · exact h

lemma leads_literal {l : Literal} (h : l.Consistent) : Leads (l.value.kind, l.text) := by
  obtain ⟨value, text⟩ := l
  cases value with
  | boolean b => cases b <;> (obtain rfl : text = _ := h; exact .inl (by decide))
  | null => obtain rfl : text = _ := h; exact .inl (by decide)
  | _ => exact .inr ⟨by simp [Literal.Value.kind], by simp [Literal.Value.kind]⟩

/-- The spellings of a plain expression are those of an expression at their start. -/
lemma beginsExpr_spellings : (e : Expr) → e.Plain → BeginsExpr e.spellings
  | .var _ text, _ => ⟨.inr ⟨by simp, by simp⟩, fun _ _ hs => by cases hs⟩
  | .literal _ l, h => ⟨leads_literal h, fun _ _ hs => by cases hs⟩
  | .binary _ op left right, h => by
    rw [Expr.spellings]
    exact ((beginsExpr_spellings left h.1).wrap _ _).append (startsNoName_sign _ _)
  | .unary _ op operand, h => by
    have hoperand := (beginsExpr_spellings operand h).wrap op.operandLayer operand.layer
    simp only [Expr.spellings, UnaryOp.place]
    split
    · exact hoperand.append (startsNoName_sign _ _)
    · exact ⟨.inr ⟨by simp, by cases op <;> decide⟩, fun hname => by cases hname⟩
  | .call _ text args, _ => by
    rw [Expr.spellings]
    exact ⟨.inr ⟨by simp, by simp⟩, fun _ => startsNoName_sign _ _⟩
  | .methodCall _ receiver text args, h => by
    rw [Expr.spellings]
    exact ((beginsExpr_spellings receiver h.1).wrap _ _).append (startsNoName_sign _ _)
  | .index _ array place, h => by
    rw [Expr.spellings, List.append_assoc]
    exact ((beginsExpr_spellings array h.1).wrap _ _).append (startsNoName_sign _ _)
  | .field _ object text, h => by
    rw [Expr.spellings]
    exact ((beginsExpr_spellings object h.1).wrap _ _).append (startsNoName_sign _ _)
  | .assign _ target value, h => by
    rw [Expr.spellings]
    exact ((beginsExpr_spellings target h.1).wrap _ _).append (startsNoName_sign _ _)

lemma Leads.not_type {s : Spelling} (h : Leads s) :
    s ≠ word "final" ∧ (decide (s.1 = .keyword) && Word.isTypeKeyword s.2) = false := by
  rcases h with hliteral | ⟨hkind, -⟩
  · have hall : ∀ s ∈ [word "true", word "false", word "null"],
        s ≠ word "final" ∧ (decide (s.1 = .keyword) && Word.isTypeKeyword s.2) = false := by
      decide
    exact hall s hliteral
  · refine ⟨?_, by simp [hkind]⟩
    rintro rfl
    exact hkind rfl

/-- An expression is not taken for a declaration. -/
lemma BeginsExpr.declares {ss : List Spelling} (h : BeginsExpr ss) : declares ss = false := by
  match ss, h with
  | s :: rest, ⟨hs, hrest⟩ =>
    obtain ⟨hfinal, htype⟩ := hs.not_type
    rw [Grammar.declares, if_neg hfinal, if_neg (by simp [htype])]
    split
    case isTrue hname =>
      cases hhead : rest.head? with
      | none => rfl
      | some s' => simpa using hrest hname s' hhead
    case isFalse => rfl

lemma declares_expr {e : Expr} (he : e.Plain) {rest : List Spelling} (hrest : EndsExpr rest) :
    declares (e.spellings ++ rest) = false :=
  ((beginsExpr_spellings e he).append hrest.startsNoName).declares

/-- A word that starts a plain type is no keyword but one that names a type. -/
lemma head?_spellings_ne {type : TypeExpr} (h : type.Plain) (keyword : String)
    (hkeyword : Word.isTypeKeyword keyword = false) (rest : List Spelling) :
    (type.spellings ++ rest).head? ≠ some (word keyword) := by
  obtain ⟨text, args, dimensions⟩ := type
  obtain ⟨hfree, htype, -⟩ := h
  have hne : ∀ {text : String}, (Word.isKeyword text = true → Word.isTypeKeyword text = true) →
      typeWord text ≠ word keyword := by
    rintro text htext heq
    obtain ⟨hkind, rfl⟩ : (if Word.isKeyword text then Kind.keyword else .identifier) = .keyword ∧
      text = keyword := Prod.ext_iff.1 heq
    cases hword : Word.isKeyword text with
    | true => simp [htext hword] at hkeyword
    | false => simp [hword] at hkind
  cases args with
  | nil =>
    rw [TypeExpr.spellings]
    exact fun h => hne (Word.isTypeKeyword_of_isKeyword hfree htype) (Option.some.inj h)
  | cons arg args =>
    rw [TypeExpr.spellings]
    exact fun h => hne htype (Option.some.inj h)

/-- **Local declarations are read back.** -/
lemma decodes_varDeclWithin {d : VarDecl} (h : d.Plain) {budget : Nat}
    (hlen : d.spellings.length ≤ budget) :
    Decodes (varDeclWithin budget) d.spellings (fun rest => rest.head? = some (sign ";"))
      (·.unlined = d.unlined) := by
  have hlen' : (declaratorSpellings d.type d.name ++ initSpellings d.init).length ≤ budget := by
    rw [VarDecl.spellings, List.length_append] at hlen
    omega
  rw [List.length_append, declaratorSpellings, List.length_append] at hlen'
  have htail : ∀ {f : String × TypeExpr × Nat → Parser VarDecl},
      (∀ name type line, f (name, type, line) =
        optionalInit budget >>= fun init => pure { name, type, init, line }) →
      Decodes (declarator budget >>= f) (declaratorSpellings d.type d.name ++ initSpellings d.init)
        (fun rest => rest.head? = some (sign ";")) (·.unlined = d.unlined) := by
    intro f hf
    refine (decodes_declarator h.type h.name (by omega)).bind ?_ fun _ _ => trivial
    rintro ⟨declared, type, line⟩ ⟨hname, htype⟩
    rw [hf]
    refine (decodes_optionalInit h.init (by omega)).bind_pure fun init hinit => ?_
    simp only [VarDecl.unlined] at hname htype ⊢
    rw [hname, htype, hinit]
  rw [VarDecl.spellings]
  cases htelling : d.type.isTelling with
  | true =>
    refine (decodes_acceptKeyword_false "final").bind_look (htail fun _ _ _ => rfl)
      fun rest _ => ?_
    rw [if_pos rfl, List.nil_append, declaratorSpellings, List.append_assoc, List.append_assoc]
    exact head?_spellings_ne h.type "final" (by decide) _
  | false =>
    exact (decodes_acceptKeyword_true "final").bind_cons fun _ _ => htail fun _ _ _ => rfl

end Grammar

end ClassLang
