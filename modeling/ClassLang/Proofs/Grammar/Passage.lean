import ClassLang.Grammar.Expr
import ClassLang.Proofs.Grammar.Reads

set_option autoImplicit false

/-!
# The passage of a parser through its tokens

A successful run of a parser takes the upcoming tokens down to fewer ones, and there are only four
ways of doing so: a token of a kind other than `error` is consumed; a number loses its sign or an
operator its first character, and goes back in front; and a word is taken apart, for which tokens of
any kind are pulled in, and their text scanned anew. Every production of the grammar is a sequence
of such moves, as its run in lockstep shows. What the moves preserve, a parse preserves.

## Main definitions

* `ClassLang.Parser.Ensures` — what holds after every successful run from given tokens.
* `ClassLang.Grammar.Passage` — the moves, one after the other.
* `ClassLang.Grammar.Completes` — a parser goes on to the end of the tokens.

## Main results

* `ClassLang.Grammar.Passage.trans` — moves after moves.
* `ClassLang.Grammar.completes_indexGroups` — the indices of a word are read to their end.
* `ClassLang.Grammar.newExpr_eq` — what follows `new`, part by part.
-/

namespace ClassLang

/-! ## Successful runs -/

namespace Parser

variable {α β : Type}

/-- After every successful run of the parser `p` from the upcoming tokens `ts`, its value and the
upcoming tokens are related by `Q`. -/
def Ensures (p : Parser α) (ts : List Token) (Q : α → List Token → Prop) : Prop :=
  ∀ ⦃c : Cursor⦄ ⦃x : α⦄ ⦃c' : Cursor⦄, c.upcoming = ts → p.runFrom c = (.ok x, c') →
    Q x c'.upcoming

variable {p : Parser α} {f : α → Parser β} {ts : List Token} {Q : α → List Token → Prop}

/-- A run of two parsers succeeds only if both do. -/
lemma exists_of_runFrom_bind {c c' : Cursor} {y : β} (h : (p >>= f).runFrom c = (.ok y, c')) :
    ∃ x d, p.runFrom c = (.ok x, d) ∧ (f x).runFrom d = (.ok y, c') := by
  change (match p c with | (r, d) => (ExceptT.bindCont f r) d) = (.ok y, c') at h
  rcases hrun : p c with ⟨r, d⟩
  rw [hrun] at h
  cases r with
  | ok x => exact ⟨x, d, hrun, h⟩
  | error e => cases (Prod.mk.inj h).1

lemma Ensures.bind {R : β → List Token → Prop} (hp : Ensures p ts Q)
    (hf : ∀ x us, Q x us → Ensures (f x) us R) : Ensures (p >>= f) ts R := by
  intro c y c' hc hrun
  obtain ⟨x, d, hx, hy⟩ := exists_of_runFrom_bind hrun
  exact hf x d.upcoming (hp hc hx) rfl hy

lemma Ensures.mono {R : α → List Token → Prop} (hp : Ensures p ts Q)
    (h : ∀ x us, Q x us → R x us) : Ensures p ts R :=
  fun _ _ _ hc hrun => h _ _ (hp hc hrun)

lemma ensures_pure {x : α} (h : Q x ts) : Ensures (pure x) ts Q := by
  rintro c y c' rfl hrun
  obtain ⟨hx, rfl⟩ := Prod.mk.inj hrun
  obtain rfl := Except.ok.inj hx
  exact h

/-- A parser that fails ensures everything. -/
lemma ensures_throw (e : SyntaxError) : Ensures (throw e) ts Q := by
  rintro c y c' - hrun
  cases (Prod.mk.inj hrun).1

lemma ensures_of_reads {x : α} {us : List Token} (h : Reads p ts x us) :
    Ensures p ts fun y vs => y = x ∧ vs = us := by
  intro c y c' hc hrun
  obtain ⟨d, hd, hus⟩ := h c hc
  obtain ⟨hx, rfl⟩ := Prod.mk.inj (hrun.symm.trans hd)
  exact ⟨Except.ok.inj hx, hus⟩

lemma ensures_peekAt (n : Nat) (ts : List Token) :
    Ensures (peekAt n) ts fun x us => x = ts[n]? ∧ us = ts :=
  ensures_of_reads (reads_peekAt n ts)

lemma ensures_hasOperatorAt (n : Nat) (op : String) (ts : List Token) :
    Ensures (hasOperatorAt n op) ts fun x us =>
      x = (ts[n]?.any fun t => t.isOperator op) ∧ us = ts :=
  ensures_of_reads (reads_hasOperatorAt n op ts)

lemma ensures_failExpected (expected : String) : Ensures (failExpected (α := α) expected) ts Q := by
  intro c x c' _ hrun
  obtain ⟨e, d, -, hthrow⟩ := exists_of_runFrom_bind hrun
  exact ensures_throw e rfl hthrow

lemma ensures_anyToken (ts : List Token) : Ensures anyToken ts fun t us => ts = t :: us := by
  cases ts with
  | nil =>
    refine Ensures.bind (Q := fun x _ => x = none) ?_ ?_
    · rintro c x c' hc hrun
      have hx : Except.ok c.advance.1 = Except.ok x := (Prod.mk.inj hrun).1
      rw [← Except.ok.inj hx, Cursor.fst_advance, hc, List.head?_nil]
    · rintro x us rfl
      exact ensures_failExpected _
  | cons t ts =>
    refine (ensures_of_reads (reads_anyToken t ts)).mono ?_
    rintro _ _ ⟨rfl, rfl⟩
    rfl

lemma ensures_expectWhere (q : Token → Bool) (expected : String) (ts : List Token) :
    Ensures (expectWhere q expected) ts fun t us => ts = t :: us ∧ q t = true := by
  refine (ensures_peekAt 0 ts).bind ?_
  rintro _ us ⟨rfl, rfl⟩
  split
  next hq =>
    refine (ensures_anyToken us).mono ?_
    rintro t us rfl
    exact ⟨rfl, by simpa using hq⟩
  next => exact ensures_failExpected _

end Parser

/-! ## Moves -/

namespace Token

/-- Whether the token is a word. -/
def isWord (t : Token) : Bool :=
  t.kind = .identifier || t.kind = .keyword

/-- The token without the first character of its lexeme. -/
def behead (t : Token) : Token :=
  { t with lexeme := String.ofList t.lexeme.toList.tail }

variable {t : Token}

lemma kind_ne_error_of_isOperator {op : String} (h : t.isOperator op = true) : t.kind ≠ .error := by
  simp only [isOperator, Bool.and_eq_true, decide_eq_true_eq] at h
  simp [h.1]

lemma kind_ne_error_of_isKeyword {word : String} (h : t.isKeyword word = true) :
    t.kind ≠ .error := by
  simp only [isKeyword, Bool.and_eq_true, decide_eq_true_eq] at h
  simp [h.1]

lemma kind_ne_error_of_isWord (h : t.isWord = true) : t.kind ≠ .error := by
  simp only [isWord, Bool.or_eq_true, decide_eq_true_eq] at h
  rcases h with h | h <;> simp [h]

end Token

namespace Grammar

open ClassLang.Parser

/-- The lexemes of tokens with a space in front of each. -/
def joined (pulled : List Token) : List Char :=
  pulled.flatMap fun t => ' ' :: t.lexeme.toList

/-- The lexeme of a word from its first bracket on. -/
def bracketed (t : Token) : List Char :=
  t.lexeme.toList.dropWhile (· ≠ '[')

/-- The ways in which upcoming tokens come down to others. To take a word apart, tokens are pulled
in if brackets of the word stay open. The bracket groups of the text are parsed to their end on
their own, and the rest of it goes back in front. -/
inductive Passage : List Token → List Token → Prop
  | refl (ts : List Token) : Passage ts ts
  | consume {t : Token} {ts us : List Token} (ht : t.kind ≠ .error) (h : Passage ts us) :
      Passage (t :: ts) us
  | behead {t : Token} {ts us : List Token}
      (ht : t.kind = .number ∨ t.kind = .floatNumber ∨ t.kind = .operator)
      (h : Passage (t.behead :: ts) us) : Passage (t :: ts) us
  | takeApart {t : Token} {pulled ts us : List Token} (ht : t.isWord = true)
      (hopen : pulled ≠ [] → 0 < Brackets.depth (bracketed t))
      (hgroups : Passage
        (rescan t.line (Brackets.spaceOut (Brackets.split (bracketed t ++ joined pulled)).1)) [])
      (h : Passage (rescan t.line (Brackets.split (bracketed t ++ joined pulled)).2 ++ ts) us) :
      Passage (t :: pulled ++ ts) us

lemma Passage.trans {ts us vs : List Token} (h : Passage ts us) (h' : Passage us vs) :
    Passage ts vs := by
  induction h with
  | refl => exact h'
  | consume ht _ ih => exact .consume ht (ih h')
  | behead ht _ ih => exact .behead ht (ih h')
  | takeApart ht hopen hgroups _ _ ih => exact .takeApart ht hopen hgroups (ih h')

/-! ## Parsers that leave nothing -/

section Completing

variable {α β : Type} {p q : Parser α} {f : α → Parser β}

/-- Every successful run goes on to the end of the tokens. -/
def Completes (p : Parser α) : Prop :=
  ∀ ts, Ensures p ts fun _ us => us = []

lemma completes_throw (e : SyntaxError) : Completes (throw e : Parser α) :=
  fun _ => ensures_throw e

lemma completes_bind (p : Parser α) (hf : ∀ x, Completes (f x)) : Completes (p >>= f) :=
  fun _ => Ensures.bind (Q := fun _ _ => True) (fun _ _ _ _ _ => trivial) fun x us _ => hf x us

lemma Completes.bind_pure (hp : Completes p) (g : α → β) :
    Completes (p >>= fun x => pure (g x)) :=
  fun ts => (hp ts).bind fun _ _ h => ensures_pure h

lemma completes_unless_atEnd (x : α) (hq : Completes q) :
    Completes (do if ← atEnd then return x else q) := by
  intro ts
  have hend : Reads atEnd ts ts[0]?.isNone ts := (reads_peekAt 0 ts).bind (reads_pure _ _)
  refine Ensures.bind (ensures_of_reads hend) ?_
  rintro _ us ⟨rfl, rfl⟩
  cases us with
  | nil => exact ensures_pure rfl
  | cons t us => exact hq (t :: us)

end Completing

lemma completes_indexGroups (expr : Parser Expr) (line : Nat) :
    ∀ budget, Completes (indexGroups expr line budget)
  | 0 => completes_throw _
  | budget + 1 => completes_unless_atEnd _ <| by
    refine completes_bind _ fun _ => completes_bind _ fun closes => ?_
    cases closes with
    | true => exact completes_throw _
    | false =>
      exact completes_bind _ fun _ => completes_bind _ fun _ =>
        (completes_indexGroups expr line budget).bind_pure _

lemma ensures_pushAllFront (us ts : List Token) :
    Ensures (pushAllFront us) ts fun _ vs => vs = us ++ ts := by
  rintro c x c' rfl hrun
  obtain ⟨-, rfl⟩ := Prod.mk.inj hrun
  induction us with
  | nil => rfl
  | cons u us ih => exact congrArg (u :: ·) (ih rfl)

/-! ## New arrays and objects -/

/-- The type arguments behind `new` and a name, and whether they are left to be inferred. -/
def newArguments (budget : Nat) : Parser (List TypeExpr × Bool) := do
  if ← hasOperator "<" then typeArgumentsWithin budget else pure ([], false)

/-- What follows the name of a type behind `new`, if that has no brackets: type arguments, and then
a size in brackets, or no arguments in parentheses. -/
def newBehind (expr : Parser Expr) (budget line : Nat) (name : String) : Parser Expr := do
  let parts ← newArguments budget
  if ← hasOperator "[" then
    let _ ← expectOperator "["
    let size ← expr
    let _ ← expectOperator "]"
    return .newArray line ((TypeExpr.mk name parts.1 0).arrayOf 1) size parts.2
  else
    let args ← arguments expr budget
    if args.isEmpty then return .newObject line (.mk name parts.1 0) parts.2
    else failUnsupported line .constructorArguments

/-- What follows a type behind `new`, taken apart into a word and sizes. -/
def newWord (expr : Parser Expr) (budget line : Nat) (parts : String × List Expr) : Parser Expr :=
  match parts.2 with
  | [size] => return .newArray line ((TypeExpr.ofWord parts.1).arrayOf 1) size false
  | _ :: _ :: _ => failUnsupported line .nestedAllocation
  | [] =>
    if 0 < (TypeExpr.ofWord parts.1).dimensions then arrayInitOf expr budget
    else newBehind expr budget line (TypeExpr.ofWord parts.1).name

lemma newExpr_eq (expr : Parser Expr) (budget : Nat) :
    newExpr expr budget = expectKeyword "new" >>= fun keyword =>
      expectWhere Token.isWord "type after 'new'" >>= fun t =>
        glued expr budget t >>= newWord expr budget keyword.line := by
  rw [newExpr]
  refine congrArg _ (funext fun keyword => congrArg _ (funext fun t => congrArg _
    (funext fun parts => ?_)))
  obtain ⟨word, sizes⟩ := parts
  cases sizes with
  | nil =>
    dsimp only [newWord]
    split
    next => rfl
    next =>
      rw [newBehind, newArguments, bind_assoc]
      refine congrArg _ (funext fun opens => ?_)
      split <;> rfl
  | cons size sizes => cases sizes <;> rfl

end Grammar

end ClassLang
