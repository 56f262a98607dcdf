import ClassLang.Proofs.Grammar.BracketText
import ClassLang.Proofs.Grammar.Lockstep
import ClassLang.Proofs.Grammar.Rendering

set_option autoImplicit false

/-!
# The leaves of parsed expressions

A syntax tree takes its names, literals and lines from tokens, as they are or with brackets cut off.
Some of these tokens are not those of the source: a number may lose its sign, and the text of an
index is scanned anew. So if a property of tokens survives both, every leaf of the tree comes from
a token that has it. A parser that fails blames such a token too, for a literal without a value or
for its line.

## Main definitions

* `ClassLang.Leaves` — a property of tokens, and properties of the names, literals and lines that
  trees take from them.
* `ClassLang.Leaves.Covers` — a text is made of the lexemes of tokens with the property.
* `ClassLang.Leaves.Lawful` — what is taken from tokens with the one has the others.
* `ClassLang.Expr.Has` — all leaves of an expression have the properties.
* `ClassLang.Expr.leaves` — the leaves themselves.
* `ClassLang.Leaves.Raises` — the errors that tokens with the property give rise to.
* `ClassLang.Grammar.Yields` — what a parser makes of tokens with the property.

## Main results

* `ClassLang.Grammar.yields_exprWithin` — the leaves of parsed expressions.
-/

namespace ClassLang

/-- A property of tokens, and properties of what syntax trees take from them. -/
structure Leaves where
  token : Token → Prop
  /-- Of the names that expressions and classes have. -/
  name : String → Prop
  /-- Of the names that are declared. -/
  declared : String → Prop
  literal : Literal → Prop
  line : Nat → Prop

/-- Every stretch of the text without spaces is part of the lexeme of a token with the property. -/
def Leaves.Covers (L : Leaves) (cs : List Char) : Prop :=
  ∀ w, w <:+: cs → ' ' ∉ w → ∃ t, L.token t ∧ w <:+: t.lexeme.toList

/-- What a tree takes from tokens with the property has the properties of leaves. A token without
its first character, and the tokens of a text made of such lexemes that is scanned anew, have the
property too. -/
structure Leaves.Lawful (L : Leaves) : Prop where
  line {t : Token} (ht : L.token t) : L.line t.line
  name {t : Token} (ht : L.token t) (hword : t.isWord = true) : L.name t.lexeme
  beforeBracket {t : Token} (ht : L.token t) (hword : t.isWord = true) :
    L.name (String.ofList (t.lexeme.toList.takeWhile (· ≠ '[')))
  declared {t : Token} (ht : L.token t) (hkind : t.kind = .identifier) :
    L.declared (Grammar.splitDeclarator t.lexeme).1
  literal {t : Token} {value : Literal.Value} (ht : L.token t) (hkind : t.kind = value.kind) :
    L.literal ⟨value, t.lexeme⟩
  behead {t : Token} (ht : L.token t)
    (hkind : t.kind = .operator ∨ (Grammar.signOp? t).isSome = true) : L.token t.behead
  rescan {t u : Token} {cs : List Char} (ht : L.token t) (hcs : L.Covers cs)
    (hu : u ∈ Grammar.rescan t.line cs) : L.token u

mutual

/-- All leaves of an expression have the properties. -/
def Expr.Has (L : Leaves) : Expr → Prop
  | .literal line l => L.line line ∧ L.literal l
  | .var line name => L.line line ∧ L.name name
  | .binary line _ left right => L.line line ∧ left.Has L ∧ right.Has L
  | .unary line _ operand => L.line line ∧ operand.Has L
  | .call line name args => L.line line ∧ L.name name ∧ Expr.AllHave L args
  | .methodCall line receiver name args =>
    L.line line ∧ receiver.Has L ∧ L.name name ∧ Expr.AllHave L args
  | .index line array place => L.line line ∧ array.Has L ∧ place.Has L
  | .field line object name => L.line line ∧ object.Has L ∧ L.name name
  | .newObject line _ _ => L.line line
  | .newArray line _ size _ => L.line line ∧ size.Has L
  | .assign line target value => L.line line ∧ target.Has L ∧ value.Has L
  | .arrayInit line elements => L.line line ∧ Expr.AllHave L elements

/-- All leaves of several expressions have the properties. -/
def Expr.AllHave (L : Leaves) : List Expr → Prop
  | [] => True
  | e :: es => e.Has L ∧ Expr.AllHave L es

end

/-- What stands at the leaves of syntax trees. -/
inductive Leaf where
  | name (text : String)
  | declared (name : String)
  | literal (value : Literal)
  | line (number : Nat)

/-- A leaf has the property that goes with it. -/
def Leaves.Holds (L : Leaves) : Leaf → Prop
  | .name text => L.name text
  | .declared name => L.declared name
  | .literal value => L.literal value
  | .line number => L.line number

mutual

/-- The leaves of an expression. -/
def Expr.leaves : Expr → List Leaf
  | .literal line l => [.line line, .literal l]
  | .var line name => [.line line, .name name]
  | .binary line _ left right => .line line :: left.leaves ++ right.leaves
  | .unary line _ operand => .line line :: operand.leaves
  | .call line name args => .line line :: .name name :: Expr.allLeaves args
  | .methodCall line receiver name args =>
    .line line :: receiver.leaves ++ .name name :: Expr.allLeaves args
  | .index line array place => .line line :: array.leaves ++ place.leaves
  | .field line object name => .line line :: object.leaves ++ [.name name]
  | .newObject line _ _ => [.line line]
  | .newArray line _ size _ => .line line :: size.leaves
  | .assign line target value => .line line :: target.leaves ++ value.leaves
  | .arrayInit line elements => .line line :: Expr.allLeaves elements

/-- The leaves of several expressions. -/
def Expr.allLeaves : List Expr → List Leaf
  | [] => []
  | e :: es => e.leaves ++ Expr.allLeaves es

end

mutual

/-- All leaves have the properties if each has. -/
theorem Expr.has_iff {L : Leaves} : (e : Expr) → (e.Has L ↔ ∀ x ∈ e.leaves, L.Holds x)
  | .literal _ _ | .var _ _ | .newObject _ _ _ => by simp [Expr.Has, Expr.leaves, Leaves.Holds]
  | .binary _ _ left right | .assign _ left right | .index _ left right => by
    simp [Expr.Has, Expr.leaves, Leaves.Holds, left.has_iff, right.has_iff, or_imp, forall_and]
  | .unary _ _ operand | .newArray _ _ operand _ => by
    simp [Expr.Has, Expr.leaves, Leaves.Holds, operand.has_iff]
  | .field _ object _ => by
    simp [Expr.Has, Expr.leaves, Leaves.Holds, object.has_iff, or_imp, forall_and]
  | .call _ _ args | .arrayInit _ args => by
    simp [Expr.Has, Expr.leaves, Leaves.Holds, Expr.allHave_iff args]
  | .methodCall _ receiver _ args => by
    simp [Expr.Has, Expr.leaves, Leaves.Holds, receiver.has_iff, Expr.allHave_iff args, or_imp,
      forall_and]

theorem Expr.allHave_iff {L : Leaves} :
    (es : List Expr) → (Expr.AllHave L es ↔ ∀ x ∈ Expr.allLeaves es, L.Holds x)
  | [] => by simp [Expr.AllHave, Expr.allLeaves]
  | e :: es => by
    simp [Expr.AllHave, Expr.allLeaves, e.has_iff, Expr.allHave_iff es, or_imp, forall_and]

end

lemma Expr.Has.line {L : Leaves} {e : Expr} (h : e.Has L) : L.line e.line := by
  cases e with
  | newObject => exact h
  | _ => exact h.1

/-! ## Errors -/

/-- The token is a number whose lexeme has no value. -/
def Token.Unreadable (t : Token) : Prop :=
  (t.kind = .number ∧ Number.readInt64? t.lexeme.toList = none) ∨
    (t.kind = .floatNumber ∧ Grammar.floatValue? t.lexeme.toList = none)

/-- The first line, or the line of a token with the property. -/
def Leaves.Reaches (L : Leaves) (line : Nat) : Prop :=
  line = 1 ∨ ∃ t, L.token t ∧ t.line = line

/-- The errors that a parser of tokens with the property may report. -/
inductive Leaves.Raises (L : Leaves) : SyntaxError → Prop
  | literal {t : Token} (ht : L.token t) (hvalue : t.Unreadable) :
      L.Raises ⟨.invalidLiteral t.lexeme, t.line⟩
  | exhausted : L.Raises ⟨.budgetExhausted, 0⟩
  | other {cause : SyntaxError.Cause} {line : Nat}
      (hcause : ∀ lexeme, cause ≠ .invalidLiteral lexeme) (hline : L.Reaches line) :
      L.Raises ⟨cause, line⟩

/-- The cursor moves over tokens with the property, and no failure is behind them. -/
structure Cursor.Over (L : Leaves) (c : Cursor) : Prop where
  token : ∀ t ∈ c.upcoming, L.token t
  line : L.Reaches c.previousLine
  failure : c.failure = none

namespace Cursor.Over

variable {L : Leaves} {c : Cursor}

lemma fetch (h : c.Over L) (count : Nat) : (c.fetch count).Over L :=
  ⟨by simpa using h.token, by simpa using h.line, by simpa using h.failure⟩

lemma advance (h : c.Over L) : c.advance.2.Over L := by
  have hfetch := h.fetch 1
  unfold Cursor.advance
  split
  next => exact hfetch
  next t rest hup =>
    have htokens := h.token
    rw [hup] at htokens
    obtain ⟨ht, hrest⟩ := List.forall_mem_cons.1 htokens
    exact ⟨hrest, .inr ⟨t, ht, rfl⟩, hfetch.failure⟩

lemma pushFront (h : c.Over L) {t : Token} (ht : L.token t) : (c.pushFront t).Over L :=
  ⟨List.forall_mem_cons.2 ⟨ht, h.token⟩, h.line, h.failure⟩

end Cursor.Over

/-- How a run over tokens with the property ends: with a value that has the property `Q`, and over
such tokens again; or with an error that they give rise to. -/
inductive Leaves.Ends {α : Type} (L : Leaves) (Q : α → Prop) : Except SyntaxError α × Cursor → Prop
  | ok {x : α} {c : Cursor} (hx : Q x) (hc : c.Over L) : L.Ends Q (.ok x, c)
  | error {e : SyntaxError} {c : Cursor} (he : L.Raises e) : L.Ends Q (.error e, c)

lemma Leaves.Ends.mono {α : Type} {L : Leaves} {Q Q' : α → Prop}
    {r : Except SyntaxError α × Cursor} (h : L.Ends Q r) (hQ : ∀ x, Q x → Q' x) : L.Ends Q' r := by
  cases h with
  | ok hx hc => exact .ok (hQ _ hx) hc
  | error he => exact .error he

namespace Grammar

open ClassLang.Parser

/-! ## Parsers of tokens with a property -/

section Rules

variable {L : Leaves} {α β : Type} {p q : Parser α} {f : α → Parser β} {Q : α → Prop} {R : β → Prop}
  {ts : List Token} {t : Token}

/-- From the upcoming tokens `ts`, which have the property, every run gives a value with the property
`Q`, and the upcoming tokens have the property then; or it fails because of such tokens. -/
def YieldsFrom (L : Leaves) (ts : List Token) (p : Parser α) (Q : α → Prop) : Prop :=
  ∀ ⦃c : Cursor⦄, c.Over L → c.upcoming = ts → L.Ends Q (p.runFrom c)

/-- The same from all upcoming tokens with the property. -/
def Yields (L : Leaves) (p : Parser α) (Q : α → Prop) : Prop :=
  ∀ ts, YieldsFrom L ts p Q

lemma YieldsFrom.bind (hp : YieldsFrom L ts p Q) (hf : ∀ x, Q x → Yields L (f x) R) :
    YieldsFrom L ts (p >>= f) R := by
  intro c hc hts
  have hrun := hp hc hts
  rcases hpc : p.runFrom c with ⟨r, d⟩
  rw [hpc] at hrun
  cases hrun with
  | ok hx hd =>
    rw [runFrom_bind_of_ok hpc]
    exact hf _ hx _ hd rfl
  | error he =>
    rw [runFrom_bind_of_error hpc]
    exact .error he

lemma Yields.bind (hp : Yields L p Q) (hf : ∀ x, Q x → Yields L (f x) R) : Yields L (p >>= f) R :=
  fun ts => (hp ts).bind hf

lemma Yields.mono {Q' : α → Prop} (hp : Yields L p Q) (h : ∀ x, Q x → Q' x) : Yields L p Q' :=
  fun ts _ hc hts => (hp ts hc hts).mono h

/-- A parser whose value does not matter. -/
lemma Yields.andThen (hp : Yields L p Q) (hf : ∀ x, Yields L (f x) R) : Yields L (p >>= f) R :=
  hp.bind fun x _ => hf x

lemma yields_pure {x : α} (h : Q x) : Yields L (pure x) Q :=
  fun _ _ hc _ => .ok h hc

lemma Yields.map {g : α → β} (hp : Yields L p Q) (h : ∀ x, Q x → R (g x)) :
    Yields L (g <$> p) R := by
  rw [← bind_pure_comp]
  exact hp.bind fun x hx => yields_pure (h x hx)

lemma Yields.ite {c : Prop} [Decidable c] (hp : c → Yields L p Q) (hq : ¬ c → Yields L q Q) :
    Yields L (if c then p else q) Q := by
  split
  next h => exact hp h
  next h => exact hq h

/-! ## Moves of a cursor over such tokens -/

lemma yieldsFrom_peekAt_bind {g : Option Token → Parser β} (n : Nat)
    (h : YieldsFrom L ts (g ts[n]?) R) : YieldsFrom L ts (peekAt n >>= g) R := by
  rintro c hc rfl
  have hpeek : (peekAt n).runFrom c = (.ok c.upcoming[n]?, c.fetch (n + 1)) := rfl
  rw [runFrom_bind_of_ok hpeek]
  exact h (hc.fetch _) (Cursor.upcoming_fetch _ _)

lemma yields_peekAt (n : Nat) : Yields L (peekAt n) fun o => ∀ t ∈ o, L.token t :=
  fun _ _ hc _ => .ok (fun t ht => hc.token t (List.mem_of_getElem? ht)) (hc.fetch _)

/-- A look at the next token, which is known afterwards. -/
lemma yields_peek_cases {g : Option Token → Parser β} (hnil : YieldsFrom L [] (g none) R)
    (hcons : ∀ t ts, L.token t → YieldsFrom L (t :: ts) (g (some t)) R) :
    Yields L (peek >>= g) R := by
  intro ts c hc hts
  refine yieldsFrom_peekAt_bind 0 ?_ hc hts
  cases ts with
  | nil => exact hnil
  | cons t ts => exact hcons t ts (hc.token t (hts ▸ List.mem_cons_self))

lemma yields_atEnd_cases {g : Bool → Parser β} (hnil : YieldsFrom L [] (g true) R)
    (hcons : ∀ t ts, L.token t → YieldsFrom L (t :: ts) (g false) R) :
    Yields L (atEnd >>= g) R := by
  rw [atEnd, bind_assoc]
  exact yields_peek_cases hnil hcons

/-- A look at the next token, which has the property. -/
lemma yields_peek_bind {g : Option Token → Parser β} (hnone : Yields L (g none) R)
    (hsome : ∀ t, L.token t → Yields L (g (some t)) R) : Yields L (peek >>= g) R :=
  yields_peek_cases (hnone _) fun t _ ht => hsome t ht _

/-- A test of a token ahead. -/
lemma yields_test (n : Nat) (test : Option Token → Bool) :
    Yields L (do return test (← peekAt n)) fun _ => True :=
  (yields_peekAt n).bind fun _ _ => yields_pure trivial

lemma yields_hasOperatorAt (n : Nat) (op : String) : Yields L (hasOperatorAt n op) fun _ => True :=
  yields_test n _

lemma yields_hasKindAt (n : Nat) (kind : Kind) : Yields L (hasKindAt n kind) fun _ => True :=
  yields_test n _

lemma yields_hasKeyword (word : String) : Yields L (hasKeyword word) fun _ => True :=
  yields_test 0 _

lemma yields_atEnd : Yields L atEnd fun _ => True :=
  yields_test 0 _

lemma yields_next : Yields L next fun o => ∀ t ∈ o, L.token t := by
  intro ts c hc _
  have hnext : next.runFrom c = (.ok c.advance.1, c.advance.2) := rfl
  rw [hnext, Cursor.fst_advance]
  exact .ok (fun t ht => hc.token t (List.mem_of_mem_head? ht)) hc.advance

lemma yields_pushFront (ht : L.token t) : Yields L (pushFront t) fun _ => True :=
  fun _ _ hc _ => .ok trivial (hc.pushFront ht)

lemma yields_pushAllFront {us : List Token} (hus : ∀ u ∈ us, L.token u) :
    Yields L (pushAllFront us) fun _ => True := by
  intro ts c hc _
  refine .ok trivial ?_
  induction us with
  | nil => exact hc
  | cons u us ih =>
    obtain ⟨hu, hus⟩ := List.forall_mem_cons.1 hus
    exact (ih hus).pushFront hu

/-- Reads tokens of their own, which have the property too. -/
lemma yields_apart {us : List Token} (hus : ∀ u ∈ us, L.token u) (hp : Yields L p Q) :
    Yields L (apart us p) Q := by
  have hrun := hp us (c := .ofTokens us) ⟨hus, .inl rfl, rfl⟩ rfl
  rw [apart, onTokens]
  rcases hpc : p.runFrom (.ofTokens us) with ⟨r, d⟩
  rw [hpc] at hrun
  cases hrun with
  | ok hx _ => exact yields_pure hx
  | error he => exact fun _ _ _ _ => .error he

lemma yields_previousLine : Yields L previousLine L.Reaches :=
  fun _ _ hc _ => .ok hc.line hc

lemma yields_currentLine : Yields L currentLine L.Reaches :=
  yields_previousLine.bind fun _ hline => yields_peek_bind (yields_pure hline) fun t ht =>
    yields_pure (.inr ⟨t, ht, rfl⟩)

/-- In front of a token, the current line is the line of that token. -/
lemma yieldsFrom_currentLine (t : Token) (ts : List Token) :
    YieldsFrom L (t :: ts) currentLine fun line => line = t.line := by
  intro c hc hts
  have hprevious : previousLine.runFrom c = (.ok c.previousLine, c) := rfl
  rw [currentLine, runFrom_bind_of_ok hprevious]
  refine yieldsFrom_peekAt_bind 0 ?_ hc hts
  exact yields_pure (Q := fun line => line = t.line) rfl _

/-- No feed has failed. -/
lemma yields_takeFailure : Yields L takeFailure fun failure => failure = none := by
  intro ts c hc _
  have htake : c.takeFailure = (none, c) := by
    unfold Cursor.takeFailure
    split
    next hfailure => cases hc.failure.symm.trans hfailure
    next => rfl
  have hrun : takeFailure.runFrom c = (.ok c.takeFailure.1, c.takeFailure.2) := rfl
  rw [hrun, htake]
  exact .ok rfl hc

/-! ## Failing -/

lemma yields_throw {e : SyntaxError} (he : L.Raises e) : Yields L (throw e) Q :=
  fun _ _ _ _ => .error he

lemma yields_exhausted : Yields L exhausted Q :=
  yields_throw .exhausted

lemma yields_failUnexpected (ht : L.token t) (expected : String) :
    Yields L (failUnexpected expected t) Q :=
  yields_throw (.other (by simp) (.inr ⟨t, ht, rfl⟩))

lemma yields_failUnsupported {line : Nat} (hline : L.Reaches line) (construct : Construct) :
    Yields L (failUnsupported line construct) Q :=
  yields_throw (.other (by simp) hline)

lemma yields_errorExpected (expected : String) : Yields L (errorExpected expected) L.Raises := by
  refine yields_previousLine.bind fun line hline => yields_peek_bind ?_ fun t ht => ?_
  · refine yields_takeFailure.bind ?_
    rintro _ rfl
    exact yields_pure (.other (by simp) hline)
  · exact .ite (fun _ => yields_pure (.other (by simp) (.inr ⟨t, ht, rfl⟩)))
      fun _ => yields_pure (.other (by simp) (.inr ⟨t, ht, rfl⟩))

lemma yields_failExpected (expected : String) : Yields L (failExpected expected) Q :=
  (yields_errorExpected expected).bind fun _ he => yields_throw he

/-! ## Tokens that have to be there -/

lemma yields_anyToken : Yields L anyToken L.token := by
  refine yields_next.bind fun o ho => ?_
  cases o with
  | none => exact yields_failExpected _
  | some t => exact yields_pure (ho t rfl)

lemma yieldsFrom_anyToken (t : Token) (ts : List Token) :
    YieldsFrom L (t :: ts) anyToken fun u => u = t := by
  intro c hc hts
  have hnext : next.runFrom c = (.ok (some t), c.advance.2) := by
    have hfst : c.advance.1 = some t := by simp [hts]
    rw [← hfst]
    rfl
  rw [anyToken, runFrom_bind_of_ok hnext]
  exact .ok rfl hc.advance

lemma yields_expectWhere (good : Token → Bool) (expected : String) :
    Yields L (expectWhere good expected) fun t => L.token t ∧ good t = true := by
  refine yields_peek_cases (yields_failExpected _ _) fun t ts ht => ?_
  rw [Option.any_some]
  split
  next hgood =>
    intro c hc hts
    refine (yieldsFrom_anyToken t ts hc hts).mono ?_
    rintro _ rfl
    exact ⟨ht, hgood⟩
  next => exact yields_failExpected _ _

lemma yields_expectOperator (op : String) : Yields L (expectOperator op) L.token :=
  (yields_expectWhere _ _).mono fun _ h => h.1

lemma yields_expectKeyword (word : String) : Yields L (expectKeyword word) L.token :=
  (yields_expectWhere _ _).mono fun _ h => h.1

lemma yields_expectIdentifier :
    Yields L expectIdentifier fun t => L.token t ∧ t.kind = .identifier :=
  (yields_expectWhere _ _).mono fun _ h => ⟨h.1, of_decide_eq_true h.2⟩

lemma yields_acceptOperator (op : String) : Yields L (acceptOperator op) fun _ => True :=
  (yields_hasOperatorAt 0 op).andThen fun _ => .ite
    (fun _ => yields_next.andThen fun _ => yields_pure trivial) fun _ => yields_pure trivial

lemma yields_acceptKeyword (word : String) : Yields L (acceptKeyword word) fun _ => True :=
  (yields_hasKeyword word).andThen fun _ => .ite
    (fun _ => yields_next.andThen fun _ => yields_pure trivial) fun _ => yields_pure trivial

end Rules

/-! ## Types -/

variable {L : Leaves}

section Lawful

variable (hL : L.Lawful)
include hL

lemma yields_closeAngle : Yields L closeAngle fun _ => True := by
  refine (yields_expectWhere closesAngle _).bind fun t ⟨ht, hcloses⟩ => ?_
  have hkind : t.kind = .operator := by
    simp only [closesAngle, Token.isOperator, Bool.or_eq_true, Bool.and_eq_true,
      decide_eq_true_eq] at hcloses
    tauto
  exact .ite (fun _ => yields_pushFront (hL.behead ht (.inl hkind))) fun _ => yields_pure trivial

lemma yields_typeList {type : Parser TypeExpr} (htype : Yields L type fun _ => True) :
    ∀ budget, Yields L (typeList type budget) fun _ => True
  | 0 => yields_exhausted
  | budget + 1 =>
    htype.andThen fun _ => (yields_acceptOperator _).andThen fun _ => .ite
      (fun _ => (yields_typeList htype budget).andThen fun _ => yields_pure trivial)
      (fun _ => (yields_closeAngle hL).andThen fun _ => yields_pure trivial)

lemma yields_typeArgumentsOf {type : Parser TypeExpr} (htype : Yields L type fun _ => True)
    (budget : Nat) : Yields L (typeArgumentsOf type budget) fun _ => True :=
  (yields_expectOperator _).andThen fun _ => (yields_acceptOperator _).andThen fun _ => .ite
    (fun _ => yields_pure trivial)
    (fun _ => (yields_typeList hL htype budget).andThen fun _ => yields_pure trivial)

omit hL in
lemma yields_bracketPairs : ∀ budget, Yields L (bracketPairs budget) fun _ => True
  | 0 => yields_exhausted
  | budget + 1 =>
    (yields_hasOperatorAt 0 _).andThen fun _ => .ite
      (fun _ => (yields_hasOperatorAt 1 _).andThen fun _ => .ite
        (fun _ => yields_next.andThen fun _ => yields_next.andThen fun _ =>
          (yields_bracketPairs budget).andThen fun _ => yields_pure trivial)
        (fun _ => yields_pure trivial))
      (fun _ => yields_pure trivial)

omit hL in
lemma yields_typeExprOf {arguments : Parser (List TypeExpr × Bool)}
    (harguments : Yields L arguments fun _ => True) (budget : Nat) :
    Yields L (typeExprOf arguments budget) fun _ => True := by
  refine (yields_expectWhere _ _).andThen fun t => (yields_hasOperatorAt 0 _).andThen fun _ => ?_
  have hpairs : ∀ args suffixes name, Yields L (do
      let pairs ← bracketPairs budget
      return TypeExpr.mk name args (suffixes + pairs)) fun _ => True :=
    fun _ _ _ => (yields_bracketPairs budget).andThen fun _ => yields_pure trivial
  have hargs : Yields L ((·.1) <$> arguments) fun _ => True := harguments.map fun _ _ => trivial
  exact .ite (fun _ => hargs.andThen fun _ => hpairs _ _ _) fun _ =>
    (yields_pure (Q := fun _ => True) trivial).andThen fun _ => hpairs _ _ _

lemma yields_typeExprWithin : ∀ budget, Yields L (typeExprWithin budget) fun _ => True
  | 0 => yields_exhausted
  | budget + 1 =>
    yields_typeExprOf (yields_typeArgumentsOf hL (yields_typeExprWithin budget) budget) _

lemma yields_typeArgumentsWithin (budget : Nat) :
    Yields L (typeArgumentsWithin budget) fun _ => True :=
  yields_typeArgumentsOf hL (yields_typeExprWithin hL budget) budget

/-! ## Words with brackets in them -/

omit hL in
lemma covers_of_infix {t : Token} (ht : L.token t) {cs : List Char}
    (h : cs <:+: t.lexeme.toList) : L.Covers cs :=
  fun _ hw _ => ⟨t, ht, hw.trans h⟩

omit hL in
lemma covers_append {cs : List Char} (hcs : L.Covers cs) {t : Token} (ht : L.token t) :
    L.Covers (cs ++ ' ' :: t.lexeme.toList) := by
  intro w hw hspace
  rcases Brackets.infix_of_infix_append_cons hw hspace with hw | hw
  · exact hcs w hw hspace
  · exact ⟨t, ht, hw⟩

omit hL in
/-- The text of a word to which the lexemes of further tokens are added. -/
lemma yields_gather {text : List Char} (htext : L.Covers text) (budget : Nat) :
    Yields L (gather text budget) L.Covers := by
  induction budget generalizing text with
  | zero => exact yields_exhausted
  | succ budget ih =>
    exact .ite (fun _ => yields_anyToken.bind fun _ ht => ih (covers_append htext ht))
      fun _ => yields_pure htext

variable {expr : Parser Expr} (hexpr : Yields L expr (Expr.Has L))
include hexpr

omit hL in
lemma yields_indexGroups {line : Nat} (hline : L.Reaches line) :
    ∀ budget, Yields L (indexGroups expr line budget) (Expr.AllHave L)
  | 0 => yields_exhausted
  | budget + 1 =>
    yields_atEnd.andThen fun _ => .ite (fun _ => yields_pure trivial) fun _ =>
      (yields_expectOperator _).andThen fun _ => (yields_hasOperatorAt 0 _).andThen fun _ => .ite
        (fun _ => yields_throw (.other (by simp) hline))
        fun _ => hexpr.bind fun _ he => (yields_expectOperator _).andThen fun _ =>
          (yields_indexGroups hline budget).bind fun _ hes => yields_pure ⟨he, hes⟩

/-- The name and the indices of a word. -/
lemma yields_glued {t : Token} (ht : L.token t) (hword : t.isWord = true) (budget : Nat) :
    Yields L (glued expr budget t) fun x => L.name x.1 ∧ Expr.AllHave L x.2 := by
  rw [glued]
  refine .ite (fun _ => yields_pure ⟨hL.name ht hword, trivial⟩) fun _ => ?_
  have hsuffix := covers_of_infix ht (List.dropWhile_suffix (· ≠ '[')).isInfix
  refine (yields_gather hsuffix budget).bind fun text htext => ?_
  have hgroups : L.Covers (Brackets.spaceOut (Brackets.split text).1) := fun w hw hspace =>
    htext w ((Brackets.infix_of_infix_spaceOut hw hspace).trans
      (Brackets.split_append text ▸ List.prefix_append _ _).isInfix) hspace
  have hrest : L.Covers (Brackets.split text).2 := fun w hw =>
    htext w (hw.trans (Brackets.split_append text ▸ List.suffix_append _ _).isInfix)
  refine (yields_pushAllFront fun u => hL.rescan ht hrest).andThen fun _ => ?_
  have hindices := yields_indexGroups hexpr (.inr ⟨t, ht, rfl⟩) budget
  refine (yields_apart (fun u => hL.rescan ht hgroups) hindices).bind ?_
  exact fun _ hindices => yields_pure ⟨hL.beforeBracket ht hword, hindices⟩

omit hL hexpr in
lemma has_indexed {e : Expr} {indices : List Expr} (he : e.Has L)
    (hindices : Expr.AllHave L indices) : (indexed e indices).Has L := by
  induction indices generalizing e with
  | nil => exact he
  | cons place indices ih => exact ih ⟨he.line, he, hindices.1⟩ hindices.2

/-! ## Lists of expressions -/

omit hL in
lemma yields_argumentList : ∀ budget, Yields L (argumentList expr budget) (Expr.AllHave L)
  | 0 => yields_exhausted
  | budget + 1 =>
    hexpr.bind fun _ he => (yields_acceptOperator _).andThen fun _ => .ite
      (fun _ => yields_pure ⟨he, trivial⟩)
      fun _ => (yields_expectOperator _).andThen fun _ =>
        (yields_argumentList budget).bind fun _ hes => yields_pure ⟨he, hes⟩

omit hL in
lemma yields_arguments (budget : Nat) : Yields L (arguments expr budget) (Expr.AllHave L) :=
  (yields_expectOperator _).andThen fun _ => (yields_acceptOperator _).andThen fun _ => .ite
    (fun _ => yields_pure trivial) fun _ => yields_argumentList hexpr budget

omit hL in
lemma yields_elementList : ∀ budget, Yields L (elementList expr budget) (Expr.AllHave L)
  | 0 => yields_exhausted
  | budget + 1 =>
    hexpr.bind fun _ he => (yields_acceptOperator _).andThen fun _ => .ite
      (fun _ => yields_pure ⟨he, trivial⟩)
      fun _ => (yields_expectOperator _).andThen fun _ => (yields_acceptOperator _).andThen fun _ =>
        .ite (fun _ => yields_pure ⟨he, trivial⟩)
          fun _ => (yields_elementList budget).bind fun _ hes => yields_pure ⟨he, hes⟩

lemma yields_arrayInitOf : ∀ budget, Yields L (arrayInitOf expr budget) (Expr.Has L)
  | 0 => yields_exhausted
  | budget + 1 =>
    have helement : Yields L (do
        if ← hasOperator openBrace then arrayInitOf expr budget else expr) (Expr.Has L) :=
      (yields_hasOperatorAt 0 _).andThen fun _ => .ite
        (fun _ => yields_arrayInitOf budget) fun _ => hexpr
    (yields_expectOperator _).bind fun _ ht => (yields_acceptOperator _).andThen fun _ => .ite
      (fun _ => yields_pure ⟨hL.line ht, trivial⟩)
      fun _ => (yields_elementList helement budget).bind fun _ hes =>
        yields_pure ⟨hL.line ht, hes⟩

lemma yields_initializerOf (budget : Nat) : Yields L (initializerOf expr budget) (Expr.Has L) :=
  (yields_hasOperatorAt 0 _).andThen fun _ => .ite
    (fun _ => yields_arrayInitOf hL hexpr budget) fun _ => hexpr

/-! ## Primary expressions -/

omit hexpr in
lemma yields_literal {t : Token} (ht : L.token t) {value : Option Literal.Value}
    (hvalue : ∀ v ∈ value, t.kind = v.kind) (hnone : value = none → t.Unreadable) :
    Yields L (literal t value) (Expr.Has L) :=
  yields_next.andThen fun _ => by
    cases value with
    | none => exact yields_throw (.literal ht (hnone rfl))
    | some v => exact yields_pure ⟨hL.line ht, hL.literal ht (hvalue v rfl)⟩

omit hexpr in
/-- A literal that always has a value. -/
lemma yields_literal_some {t : Token} (ht : L.token t) {v : Literal.Value} (hv : t.kind = v.kind) :
    Yields L (literal t (some v)) (Expr.Has L) :=
  yields_literal hL ht (fun _ h => Option.mem_some.1 h ▸ hv) fun h => by cases h

omit hL hexpr in
lemma kind_of_floatValue? {lexeme : List Char} {v : Literal.Value}
    (h : floatValue? lexeme = some v) : v.kind = .floatNumber := by
  obtain ⟨x, -, rfl⟩ := Option.map_eq_some_iff.1 h
  split <;> rfl

lemma yields_newBehind {line : Nat} (hline : L.line line) (hreaches : L.Reaches line)
    (budget : Nat) (name : String) : Yields L (newBehind expr budget line name) (Expr.Has L) := by
  have hargs : Yields L (newArguments budget) fun _ => True := (yields_hasOperatorAt 0 _).andThen
    fun _ => .ite (fun _ => yields_typeArgumentsWithin hL budget) fun _ => yields_pure trivial
  refine hargs.andThen fun _ => (yields_hasOperatorAt 0 _).andThen fun _ =>
    .ite (fun _ => ?_) fun _ => ?_
  · exact (yields_expectOperator _).andThen fun _ => hexpr.bind fun _ hsize =>
      (yields_expectOperator _).andThen fun _ => yields_pure ⟨hline, hsize⟩
  · exact (yields_arguments hexpr budget).andThen fun _ => .ite
      (fun _ => yields_pure hline) fun _ => yields_failUnsupported hreaches _

lemma yields_newExpr (budget : Nat) : Yields L (newExpr expr budget) (Expr.Has L) := by
  rw [newExpr_eq]
  refine (yields_expectKeyword _).bind fun keyword hkeyword => ?_
  have hline := hL.line hkeyword
  have hreaches : L.Reaches keyword.line := .inr ⟨keyword, hkeyword, rfl⟩
  refine (yields_expectWhere _ _).bind fun t ⟨ht, hword⟩ => ?_
  refine (yields_glued hL hexpr ht hword budget).bind fun ⟨word, sizes⟩ ⟨_, hsizes⟩ => ?_
  match sizes, hsizes with
  | [size], hsizes => exact yields_pure ⟨hline, hsizes.1⟩
  | _ :: _ :: _, _ => exact yields_failUnsupported hreaches _
  | [], _ =>
    refine .ite (fun _ => yields_arrayInitOf hL hexpr budget) fun _ => ?_
    exact yields_newBehind hL hexpr hline hreaches budget _

lemma yields_keywordExpr {t : Token} (ht : L.token t) (hkind : t.kind = .keyword) (budget : Nat) :
    Yields L (keywordExpr expr budget t) (Expr.Has L) := by
  refine .ite (fun _ => ?_) fun _ => .ite (fun _ => ?_) fun _ => ?_
  · exact yields_literal_some hL ht hkind
  · exact yields_literal_some hL ht hkind
  · refine .ite (fun _ => yields_newExpr hL hexpr budget) fun _ => ?_
    refine .ite (fun _ => ?_) fun _ => yields_failUnexpected ht _
    have hword : t.isWord = true := by simp [Token.isWord, hkind]
    exact (yields_hasOperatorAt 1 _).andThen fun _ => .ite
      (fun _ => yields_next.andThen fun _ => yields_pure ⟨hL.line ht, hL.name ht hword⟩)
      fun _ => yields_failUnexpected ht _

lemma yields_nameExpr {t : Token} (ht : L.token t) (hkind : t.kind = .identifier) (budget : Nat) :
    Yields L (nameExpr expr budget t) (Expr.Has L) := by
  have hword : t.isWord = true := by simp [Token.isWord, hkind]
  refine yields_next.andThen fun _ => ?_
  refine (yields_glued hL hexpr ht hword budget).bind ?_
  rintro ⟨name, indices⟩ ⟨hname, hindices⟩
  refine .ite (fun _ => ?_) fun _ => yields_pure (has_indexed ⟨hL.line ht, hname⟩ hindices)
  exact (yields_hasOperatorAt 0 _).andThen fun _ => .ite
    (fun _ => (yields_arguments hexpr budget).bind fun _ hargs =>
      yields_pure ⟨hL.line ht, hname, hargs⟩)
    fun _ => yields_pure ⟨hL.line ht, hname⟩

omit hL in
lemma yields_grouped : Yields L (grouped expr) (Expr.Has L) :=
  yields_next.andThen fun _ => hexpr.bind fun _ he =>
    (yields_expectOperator _).andThen fun _ => yields_pure he

lemma yields_primaryOf (budget : Nat) : Yields L (primaryOf expr budget) (Expr.Has L) := by
  refine yields_peek_bind (yields_failExpected _) fun t ht => ?_
  cases hkind : t.kind <;> simp only [hkind]
  case number =>
    refine yields_literal hL ht (fun v hv => ?_) fun hnone => ?_
    · obtain ⟨n, -, rfl⟩ := Option.map_eq_some_iff.1 hv
      exact hkind
    · exact .inl ⟨hkind, Option.map_eq_none_iff.1 hnone⟩
  case floatNumber =>
    exact yields_literal hL ht (fun v hv => hkind.trans (kind_of_floatValue? hv).symm)
      fun hnone => .inr ⟨hkind, hnone⟩
  case stringLiteral | charLiteral => exact yields_literal_some hL ht hkind
  case keyword => exact yields_keywordExpr hL hexpr ht hkind budget
  case identifier => exact yields_nameExpr hL hexpr ht hkind budget
  case operator => exact .ite (fun _ => yields_grouped hexpr) fun _ => yields_failUnexpected ht _
  case unknown => exact yields_failUnexpected ht _
  case error => exact yields_throw (.other (by simp) (.inr ⟨t, ht, rfl⟩))

/-! ## Behind and in front of primary expressions -/

lemma yields_trailers (budget : Nat) :
    ∀ (steps : Nat) (e : Expr), e.Has L → Yields L (trailers expr budget steps e) (Expr.Has L)
  | 0, _, _ => yields_exhausted
  | steps + 1, e, he => by
    refine (yields_acceptOperator _).andThen fun _ => .ite (fun _ => ?_) fun _ => ?_
    · refine yields_anyToken.bind fun t ht => .ite (fun hword => ?_) fun _ =>
        yields_failUnexpected ht _
      have hline := hL.line ht
      refine (yields_glued hL hexpr ht hword budget).bind fun ⟨member, indices⟩ hmember => ?_
      obtain ⟨hname, hindices⟩ := hmember
      refine (yields_hasOperatorAt 0 _).andThen fun _ => .ite (fun _ => ?_) fun _ => ?_
      · exact (yields_arguments hexpr budget).bind fun _ hargs =>
          yields_trailers budget steps _ ⟨hline, he, hname, hargs⟩
      · exact yields_trailers budget steps _ (has_indexed ⟨hline, he, hname⟩ hindices)
    · refine (yields_hasOperatorAt 0 _).andThen fun _ => .ite (fun _ => ?_) fun _ => ?_
      · exact (yields_expectOperator _).bind fun _ ht => hexpr.bind fun _ hplace =>
          (yields_expectOperator _).andThen fun _ =>
            yields_trailers budget steps _ ⟨hL.line ht, he, hplace⟩
      · refine (yields_peekAt 0).andThen fun o => ?_
        cases o.bind trailingStep? with
        | none => exact yields_pure he
        | some op => exact yields_next.andThen fun _ => yields_pure ⟨he.line, he⟩

lemma yields_operand (budget : Nat) : Yields L (operand expr budget) (Expr.Has L) :=
  (yields_primaryOf hL hexpr budget).bind fun e he => yields_trailers hL hexpr budget budget e he

omit hexpr in
lemma yields_unaryOf {operand : Parser Expr} (hoperand : Yields L operand (Expr.Has L)) :
    ∀ budget, Yields L (unaryOf operand budget) (Expr.Has L)
  | 0 => yields_exhausted
  | budget + 1 => by
    refine yields_peek_bind hoperand fun t ht => ?_
    cases hop : leadingOp? t with
    | none => simpa only [hop] using hoperand
    | some op =>
      simp only [hop]
      refine yields_next.andThen fun _ => (yields_unaryOf hoperand budget).bind fun _ he => ?_
      cases op with
      | none => exact yields_pure he
      | some op => exact yields_pure ⟨hL.line ht, he⟩

/-! ## Layers of binary operators -/

omit hexpr in
lemma yields_chainFrom (ops : List BinaryOp) {operand : Parser Expr}
    (hoperand : Yields L operand (Expr.Has L)) :
    ∀ (budget : Nat) (left : Expr), left.Has L →
      Yields L (chainFrom ops operand budget left) (Expr.Has L)
  | 0, _, _ => yields_exhausted
  | budget + 1, left, hleft => by
    refine yields_peek_bind (yields_pure hleft) fun t ht => ?_
    cases hop : binaryOp? ops t with
    | none => simpa only [hop] using yields_pure hleft
    | some op =>
      simp only [hop]
      exact yields_next.andThen fun _ => hoperand.bind fun _ hright =>
        yields_chainFrom ops hoperand budget _ ⟨hL.line ht, hleft, hright⟩

omit hexpr in
lemma yields_chain (ops : List BinaryOp) {operand : Parser Expr}
    (hoperand : Yields L operand (Expr.Has L)) (budget : Nat) :
    Yields L (chain ops operand budget) (Expr.Has L) :=
  hoperand.bind fun left hleft => yields_chainFrom hL ops hoperand budget left hleft

omit hexpr in
/-- The sign that is split off a number leaves a number. -/
lemma yields_sumFrom {operand : Parser Expr} (hoperand : Yields L operand (Expr.Has L)) :
    ∀ (budget : Nat) (left : Expr), left.Has L →
      Yields L (sumFrom operand budget left) (Expr.Has L)
  | 0, _, _ => yields_exhausted
  | budget + 1, left, hleft => by
    refine yields_peek_bind (yields_pure hleft) fun t ht => ?_
    have hrest : ∀ op : BinaryOp, Yields L (do
        let right ← operand
        sumFrom operand budget (.binary t.line op left right)) (Expr.Has L) :=
      fun op => hoperand.bind fun _ hright =>
        yields_sumFrom hoperand budget _ ⟨hL.line ht, hleft, hright⟩
    cases hop : binaryOp? [.arith .add, .arith .sub] t with
    | some op =>
      simp only [hop]
      exact yields_next.andThen fun _ => hrest op
    | none =>
      cases hsign : signOp? t with
      | none => simpa only [hop, hsign] using yields_pure hleft
      | some op =>
        have hbehead : L.token t.behead := hL.behead ht (.inr (by simp [hsign]))
        simp only [hop, hsign]
        exact yields_next.andThen fun _ => (yields_pushFront hbehead).andThen fun _ => hrest _

lemma yields_disjunction (budget : Nat) : Yields L (disjunction expr budget) (Expr.Has L) := by
  have hproduct : Yields L (product expr budget) (Expr.Has L) :=
    yields_chain hL _ (yields_unaryOf hL (yields_operand hL hexpr budget) budget) budget
  have hsum : Yields L (sum expr budget) (Expr.Has L) :=
    hproduct.bind fun left hleft => yields_sumFrom hL hproduct budget left hleft
  have hrelation : Yields L (relation expr budget) (Expr.Has L) := yields_chain hL _ hsum budget
  have hequality : Yields L (equality expr budget) (Expr.Has L) :=
    yields_chain hL _ hrelation budget
  exact yields_chain hL _ (yields_chain hL _ hequality budget) budget

lemma yields_assignment (budget : Nat) : Yields L (assignment expr budget) (Expr.Has L) := by
  refine (yields_disjunction hL hexpr budget).bind fun left hleft => ?_
  refine yields_peek_bind (yields_pure hleft) fun t ht => .ite (fun _ => ?_) fun _ => ?_
  · exact yields_next.andThen fun _ => (yields_initializerOf hL hexpr budget).bind fun _ hright =>
      yields_pure ⟨hL.line ht, hleft, hright⟩
  · cases hop : binaryOp? compoundOps t with
    | none => simpa only [hop] using yields_pure hleft
    | some op =>
      exact yields_next.andThen fun _ => hexpr.bind fun _ hright =>
        yields_pure ⟨hL.line ht, hleft, hright⟩

omit hexpr in
lemma yields_exprWithin : ∀ budget, Yields L (exprWithin budget) (Expr.Has L)
  | 0 => yields_exhausted
  | budget + 1 => yields_assignment hL (yields_exprWithin budget) _

end Lawful

end Grammar

end ClassLang
