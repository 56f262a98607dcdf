import ClassLang.Proofs.Grammar.BracketGroups
import ClassLang.Proofs.Grammar.Lockstep

set_option autoImplicit false

/-!
# Expressions in lockstep

The parser of expressions recurs in three ways: on what is left of the tokens, on those tokens with
the rest of a token put back in front, and on a text that is scanned anew. In all of them the
tokens have become lighter. Scanning a text gives tokens that weigh no more than the characters of
the text, spaces not counted; and the bracket group at the front of a text has at least one
bracket, so that what is put back weighs less than what was taken.

## Main results

* `ClassLang.Grammar.totalWeight_rescan_le` — scanning a text anew.
* `ClassLang.Grammar.inStep_glued` — taking a word apart.
* `ClassLang.Grammar.consumes_assignment` — a layer of expressions asks for inner expressions on
  lighter tokens only.
* `ClassLang.Grammar.consumes_exprWithin` — expressions.
-/

namespace ClassLang

/-- The number of characters of a text other than spaces. -/
def inkOf (cs : List Char) : Nat :=
  cs.countP fun c => c ≠ ' '

@[simp]
lemma inkOf_append (cs ds : List Char) : inkOf (cs ++ ds) = inkOf cs + inkOf ds :=
  List.countP_append

lemma inkOf_cons_of_ne {c : Char} (h : c ≠ ' ') (cs : List Char) :
    inkOf (c :: cs) = inkOf cs + 1 :=
  List.countP_cons_of_pos (by simpa using h)

lemma inkOf_space_cons (cs : List Char) : inkOf (' ' :: cs) = inkOf cs :=
  List.countP_cons_of_neg (by simp)

/-! ## Texts that are scanned anew -/

namespace Scan

/-- What lexemes weigh as tokens. -/
def weightOf (ps : List Piece) : Nat :=
  ps.foldr (fun p total => max 1 (inkOf p.text) + total) 0

lemma weightOf_cons (p : Piece) (ps : List Piece) :
    weightOf (p :: ps) = max 1 (inkOf p.text) + weightOf ps := rfl

/-- The lexemes of a text weigh no more than its characters. -/
lemma weightOf_pieces_le (before : Option Char) (line : Nat) (cs : List Char) :
    weightOf (pieces before line cs) ≤ inkOf cs := by
  fun_induction pieces before line cs with
  | case1 => exact Nat.le_refl _
  | case2 before line c cs s more kind hkind ih =>
    -- A lexeme starts with a character that is no blank, so that it has some ink.
    have hblank : Text.isBlank c ≠ true := by
      intro hblank
      simp [s, step, hblank] at hkind
    have hspace : c ≠ ' ' := by
      rintro rfl
      exact hblank (by decide)
    obtain ⟨tail, htext⟩ := step_text_eq_cons before c cs
    have hink : 0 < inkOf s.text := by
      rw [show s.text = c :: tail from htext, inkOf_cons_of_ne hspace]
      omega
    have hparts : inkOf (c :: cs) = inkOf s.text + inkOf s.rest := by
      rw [← inkOf_append, step_text_append_rest]
    have hmore : weightOf more ≤ inkOf s.rest := ih
    simp only [weightOf_cons]
    omega
  | case3 before line c cs s more hkind ih =>
    have hparts : inkOf (c :: cs) = inkOf s.text + inkOf s.rest := by
      rw [← inkOf_append, step_text_append_rest]
    exact hparts ▸ Nat.le_add_left_of_le ih

end Scan

namespace Brackets

lemma inkOf_spaceOut (cs : List Char) : inkOf (spaceOut cs) = inkOf cs := by
  induction cs with
  | nil => rfl
  | cons c cs ih =>
    by_cases hc : c = '[' ∨ c = ']'
    · have hspace : c ≠ ' ' := by
        rcases hc with rfl | rfl <;> decide
      rw [spaceOut_bracket hc, inkOf_space_cons, inkOf_cons_of_ne hspace, inkOf_space_cons, ih,
        inkOf_cons_of_ne hspace]
    · have hcons : ∀ ds, inkOf (c :: ds) = inkOf [c] + inkOf ds := fun ds => inkOf_append [c] ds
      rw [spaceOut_cons hc, hcons, ih, ← hcons]

/-- A text that starts with a bracket and leaves none open has a group at its front. -/
lemma inkOf_split_pos {cs : List Char} (hdepth : depth ('[' :: cs) ≤ 0) :
    0 < inkOf (split ('[' :: cs)).1 := by
  obtain ⟨n, hrun, hopen, -⟩ := isRun_split cs
  obtain ⟨m, hrun⟩ := hrun.exists_succ fun hnil => absurd (hopen hnil) (by omega)
  obtain ⟨ds, hds⟩ := hrun.exists_cons
  rw [hds, inkOf_cons_of_ne (by decide)]
  exact Nat.succ_pos _

end Brackets

namespace Grammar

open ClassLang.Parser

/-- **Scanning a text anew gives no weight**: the tokens weigh no more than the text. -/
lemma totalWeight_rescan_le (line : Nat) (cs : List Char) :
    totalWeight (rescan line cs) ≤ inkOf cs := by
  have hweight : ∀ ts : List Token, totalWeight (ts.map fun t => { t with line }) =
      Scan.weightOf (ts.map Token.piece) := by
    intro ts
    induction ts with
    | nil => rfl
    | cons t ts ih =>
      simp only [List.map_cons, totalWeight_cons, Scan.weightOf_cons, ih]
      rfl
  rw [rescan, hweight, tokenize, Scan.map_piece_tokens, String.toList_ofList]
  exact Scan.weightOf_pieces_le none 1 cs

lemma inkOf_joined_le (pulled : List Token) : inkOf (joined pulled) ≤ totalWeight pulled := by
  induction pulled with
  | nil => exact Nat.le_refl _
  | cons t pulled ih =>
    have ht : inkOf t.lexeme.toList ≤ t.weight := t.countP_le_weight
    rw [joined_cons, inkOf_space_cons, inkOf_append, totalWeight_cons]
    omega

lemma inkOf_bracketed_le (t : Token) : inkOf (bracketed t) ≤ t.weight := by
  have hsuffix : inkOf (bracketed t) ≤ inkOf t.lexeme.toList :=
    (List.dropWhile_sublist _).countP_le
  exact hsuffix.trans t.countP_le_weight

/-! ## Words with brackets in them -/

section Words

variable {α : Type} {n k a b : Nat}

/-- The text gathered is that of the tokens pulled in, if brackets are open at all, and no bracket
of it stays open. -/
lemma inStep_gather_bind {f g : List Char → Parser α} {text : List Char} {start ts : List Token}
    (ha : totalWeight ts < a) (hb : totalWeight ts < b)
    (h : ∀ pulled us, ts = pulled ++ us → (pulled ≠ [] → 0 < Brackets.depth text) →
      Brackets.depth (text ++ joined pulled) ≤ 0 →
        InStep (f (text ++ joined pulled)) (g (text ++ joined pulled)) start us k) :
    InStep (gather text a >>= f) (gather text b >>= g) start ts k := by
  induction a generalizing text ts b with
  | zero => omega
  | succ a ih =>
    obtain ⟨b, rfl⟩ : ∃ b', b = b' + 1 := ⟨b - 1, by omega⟩
    rw [gather, gather]
    split
    next hopen =>
      rw [bind_assoc, bind_assoc]
      refine inStep_anyToken_bind ?_
      rintro t us rfl
      have ht := t.weight_pos
      rw [totalWeight_cons] at ha hb
      refine ih (by omega) (by omega) fun pulled vs hus _ hdepth => ?_
      have hjoined : (text ++ ' ' :: t.lexeme.toList) ++ joined pulled =
          text ++ joined (t :: pulled) := by
        simp [joined_cons]
      rw [hjoined] at hdepth ⊢
      exact h (t :: pulled) vs (by rw [hus]; rfl) (fun _ => hopen) hdepth
    next hclosed =>
      have hnil : text ++ joined [] = text := List.append_nil text
      have hpure := h [] ts rfl (fun hne => absurd rfl hne) (by rw [hnil]; omega)
      rwa [hnil] at hpure

/-- The groups of the text gathered and the rest of it share the weight of the word and of the
tokens pulled in, and some of it is in the groups. -/
lemma totalWeight_parts (line : Nat) {t : Token} {pulled : List Token}
    (hpairs : ¬ Brackets.isPairs (bracketed t) = true)
    (hdepth : Brackets.depth (bracketed t ++ joined pulled) ≤ 0) :
    totalWeight
          (rescan line (Brackets.spaceOut (Brackets.split (bracketed t ++ joined pulled)).1)) ≤
        t.weight + totalWeight pulled ∧
      totalWeight (rescan line (Brackets.split (bracketed t ++ joined pulled)).2) <
        t.weight + totalWeight pulled := by
  have hgroups : 0 < inkOf (Brackets.split (bracketed t ++ joined pulled)).1 := by
    cases hcs : bracketed t with
    | nil => exact absurd (by rw [hcs]; rfl) hpairs
    | cons c cs =>
      have hhead := List.head?_dropWhile_not (fun c => c ≠ '[') t.lexeme.toList
      rw [show t.lexeme.toList.dropWhile (fun c => c ≠ '[') = c :: cs from hcs] at hhead
      obtain rfl : c = '[' := by simpa using hhead
      rw [hcs] at hdepth
      exact Brackets.inkOf_split_pos hdepth
  have hshare : inkOf (Brackets.split (bracketed t ++ joined pulled)).1 +
      inkOf (Brackets.split (bracketed t ++ joined pulled)).2 ≤ t.weight + totalWeight pulled := by
    rw [← inkOf_append, Brackets.split_append, inkOf_append]
    exact Nat.add_le_add (inkOf_bracketed_le t) (inkOf_joined_le pulled)
  have hfirst := totalWeight_rescan_le line
    (Brackets.spaceOut (Brackets.split (bracketed t ++ joined pulled)).1)
  have hrest := totalWeight_rescan_le line (Brackets.split (bracketed t ++ joined pulled)).2
  rw [Brackets.inkOf_spaceOut] at hfirst
  omega

/-- A run on tokens of its own meets no failure of the source, and goes through them all. -/
lemma inStep_apart_bind {β : Type} {p q : Parser α} {f g : α → Parser β} {tokens : List Token}
    {start ts : List Token} {m : Nat} (h : InStep p q tokens tokens k) (hp : Completes p)
    (hf : Passage tokens [] → ∀ x, InStep (f x) (g x) start ts m) :
    InStep (apart tokens p >>= f) (apart tokens q >>= g) start ts m := by
  have hrun := h (abreast_ofTokens tokens) rfl
  rw [apart, apart, onTokens, onTokens]
  rcases hpc : p.runFrom (.ofTokens tokens) with ⟨r, c⟩
  rcases hqd : q.runFrom (.ofTokens tokens) with ⟨r', d⟩
  rw [hpc, hqd] at hrun
  cases hrun with
  | ok _ hmoves _ =>
    rw [hp tokens rfl hpc] at hmoves
    exact hf hmoves _
  | error hsame hbudget =>
    obtain rfl := hsame rfl
    exact InStep.bind (inStep_throw (k := 0) (hbudget rfl)) fun _ _ _ h => absurd h (by omega)

end Words

section Expressions

variable {n a b : Nat} {expr expr' : Parser Expr} (hexpr : Lockstep n expr expr')

include hexpr in
lemma lockstep_indexGroups (line : Nat) :
    ∀ {k a b : Nat}, k ≤ n + 1 → k ≤ a → k ≤ b →
      Lockstep k (indexGroups expr line a) (indexGroups expr' line b)
  | 0, _, _, _, _, _ => lockstep_zero _ _
  | k + 1, a + 1, b + 1, hk, ha, hb => by
    refine lockstep_atEnd.bind fun _ => .ite (lockstep_pure _) (Consumes.lockstep ?_)
    refine (consumes_expectOperator _).bind fun _ => (lockstep_hasOperator _).bind fun _ => ?_
    refine .ite (consumes_throw (by simp)).lockstep ?_
    exact (hexpr.mono (by omega)).bind fun _ =>
      (consumes_expectOperator _).lockstep.bind fun _ =>
        (lockstep_indexGroups line (by omega) (by omega) (by omega)).bind fun _ => lockstep_pure _

include hexpr in
/-- **Taking a word apart loses weight.** The word `t` has been consumed, and what is left in the
end weighs less than it did with the word in front. The indices are expressions on tokens that are
lighter still.

**Proof sketch.** The characters of the text are those of the word and of the tokens pulled in, so
it weighs no more than these. The bracket groups and the rest of the text share its weight, and the
groups have some of it. Inside the groups, expressions are read behind a bracket. -/
lemma inStep_glued (ha : n < a) (hb : n < b) {t : Token} {ts : List Token} (hword : t.isWord = true)
    (ht : t.weight + totalWeight ts ≤ n) :
    InStep (glued expr a t) (glued expr' b t) (t :: ts) ts (t.weight + totalWeight ts) := by
  have hpos := t.weight_pos
  refine .ite (fun _ => inStep_pure _ (.consume (Token.kind_ne_error_of_isWord hword) (.refl ts))
    (by omega)) fun hpairs => ?_
  refine inStep_gather_bind (by omega) (by omega) ?_
  rintro pulled us rfl hopen hdepth
  obtain ⟨hgroups, hrest⟩ := totalWeight_parts t.line hpairs hdepth
  rw [totalWeight_append] at ht ⊢
  have hindices := lockstep_indexGroups hexpr t.line (Nat.le_refl _) ha hb _
    (Nat.lt_succ_of_le (hgroups.trans (by omega)))
  set left := rescan t.line (Brackets.split (bracketed t ++ joined pulled)).2
  have hleft : totalWeight (left ++ us) + 1 ≤ t.weight + (totalWeight pulled + totalWeight us) := by
    rw [totalWeight_append]
    omega
  refine inStep_pushAllFront_bind left ?_
  refine inStep_apart_bind hindices (completes_indexGroups expr t.line a) fun hgone _ => ?_
  exact inStep_pure _ (.takeApart hword hopen hgone (.refl _)) hleft

/-! ## Lists of expressions -/

include hexpr in
lemma lockstep_argumentList :
    ∀ {k a b : Nat}, k ≤ n → k ≤ a → k ≤ b →
      Lockstep k (argumentList expr a) (argumentList expr' b)
  | 0, _, _, _, _, _ => lockstep_zero _ _
  | k + 1, a + 1, b + 1, hk, ha, hb => by
    refine (hexpr.mono hk).bind fun _ => (lockstep_acceptOperator _).bind fun _ => ?_
    refine .ite (lockstep_pure _) (Consumes.lockstep ?_)
    exact (consumes_expectOperator _).bind fun _ =>
      (lockstep_argumentList (by omega) (by omega) (by omega)).bind fun _ => lockstep_pure _

include hexpr in
lemma consumes_arguments (ha : n ≤ a) (hb : n ≤ b) :
    Consumes (n + 1) (arguments expr a) (arguments expr' b) :=
  (consumes_expectOperator _).bind fun _ => (lockstep_acceptOperator _).bind fun _ =>
    .ite (lockstep_pure _) (lockstep_argumentList hexpr (Nat.le_refl n) ha hb)

include hexpr in
lemma lockstep_elementList :
    ∀ {k a b : Nat}, k ≤ n → k ≤ a → k ≤ b →
      Lockstep k (elementList expr a) (elementList expr' b)
  | 0, _, _, _, _, _ => lockstep_zero _ _
  | k + 1, a + 1, b + 1, hk, ha, hb => by
    refine (hexpr.mono hk).bind fun _ => (lockstep_acceptOperator _).bind fun _ => ?_
    refine .ite (lockstep_pure _) (Consumes.lockstep ?_)
    refine (consumes_expectOperator _).bind fun _ => (lockstep_acceptOperator _).bind fun _ => ?_
    exact .ite (lockstep_pure _)
      ((lockstep_elementList (by omega) (by omega) (by omega)).bind fun _ => lockstep_pure _)

include hexpr in
lemma consumes_arrayInitOf :
    ∀ {k a b : Nat}, k ≤ n + 1 → k ≤ a → k ≤ b →
      Consumes k (arrayInitOf expr a) (arrayInitOf expr' b)
  | 0, _, _, _, _, _ => consumes_zero _ _
  | k + 1, a + 1, b + 1, hk, ha, hb => by
    have helement : Lockstep k
        (do if ← hasOperator openBrace then arrayInitOf expr a else expr)
        (do if ← hasOperator openBrace then arrayInitOf expr' b else expr') :=
      (lockstep_hasOperator _).bind fun _ => .ite
        (consumes_arrayInitOf (by omega) (by omega) (by omega)).lockstep (hexpr.mono (by omega))
    refine (consumes_expectOperator _).bind fun _ => (lockstep_acceptOperator _).bind fun _ => ?_
    exact .ite (lockstep_pure _)
      ((lockstep_elementList helement (Nat.le_refl k) (by omega) (by omega)).bind
        fun _ => lockstep_pure _)

include hexpr in
lemma lockstep_initializerOf (ha : n ≤ a) (hb : n ≤ b) :
    Lockstep n (initializerOf expr a) (initializerOf expr' b) :=
  (lockstep_hasOperator _).bind fun _ => .ite
    (consumes_arrayInitOf hexpr (Nat.le_succ n) ha hb).lockstep hexpr

/-! ## Primary expressions -/

lemma inStep_literal {t : Token} (hkind : t.kind ≠ .error) (value : Option Literal.Value)
    {ts : List Token} (hts : totalWeight (t :: ts) < n + 1) :
    InStep (literal t value) (literal t value) (t :: ts) (t :: ts) (totalWeight (t :: ts)) := by
  refine Lockstep.behind_next hkind ?_ hts
  cases value with
  | none => exact (consumes_throw (by simp)).lockstep
  | some value => exact lockstep_pure _

variable (ha : n < a) (hb : n < b)
include hexpr ha hb

lemma lockstep_newBehind (line : Nat) (name : String) :
    Lockstep n (newBehind expr a line name) (newBehind expr' b line name) := by
  have hargs : Lockstep n (newArguments a) (newArguments b) := (lockstep_hasOperator _).bind
    fun _ => .ite (consumes_typeArgumentsWithin ha.le hb.le).lockstep (lockstep_pure _)
  refine hargs.bind fun _ => (lockstep_hasOperator _).bind fun _ => .ite ?_ ?_
  · exact (consumes_expectOperator _).lockstep.bind fun _ => hexpr.bind fun _ =>
      (consumes_expectOperator _).lockstep.bind fun _ => lockstep_pure _
  · refine ((consumes_arguments hexpr ha.le hb.le).lockstep.mono (Nat.le_succ n)).bind ?_
    exact fun _ => .ite (lockstep_pure _) (consumes_failUnsupported _ _).lockstep

lemma consumes_newExpr : Consumes (n + 1) (newExpr expr a) (newExpr expr' b) := by
  rw [newExpr_eq, newExpr_eq]
  refine (consumes_expectKeyword _).bind fun keyword ts hts => ?_
  refine inStep_expectWhere_bind _ _ ?_
  rintro t us rfl hword
  rw [totalWeight_cons] at hts ⊢
  refine ((inStep_glued hexpr ha hb hword hts.le).bind_lockstep (n := n) ?_ hts.le).mono
    (Nat.le_succ _)
  rintro ⟨word, sizes⟩
  match sizes with
  | [size] => exact lockstep_pure _
  | _ :: _ :: _ => exact (consumes_failUnsupported _ _).lockstep
  | [] =>
    refine .ite (consumes_arrayInitOf hexpr (Nat.le_succ n) ha.le hb.le).lockstep ?_
    exact lockstep_newBehind hexpr ha hb _ _

lemma inStep_keywordExpr {t : Token} (hkind : t.kind = .keyword) {ts : List Token}
    (hts : totalWeight (t :: ts) < n + 1) :
    InStep (keywordExpr expr a t) (keywordExpr expr' b t) (t :: ts) (t :: ts)
      (totalWeight (t :: ts)) := by
  have hne : t.kind ≠ .error := by simp [hkind]
  refine .ite (fun _ => inStep_literal hne _ hts) fun _ => ?_
  refine .ite (fun _ => inStep_literal hne _ hts) fun _ => ?_
  refine .ite (fun _ => consumes_newExpr hexpr ha hb _ hts) fun _ => ?_
  have hfail : InStep (failUnexpected "expression" t : Parser Expr) (failUnexpected "expression" t)
      (t :: ts) (t :: ts) (totalWeight (t :: ts)) := consumes_failUnexpected _ _ _ hts
  refine .ite (fun _ => ?_) fun _ => hfail
  refine inStep_hasOperatorAt_bind 1 _ (.ite (fun _ => ?_) fun _ => hfail)
  exact Lockstep.behind_next hne (lockstep_pure _) hts

lemma inStep_nameExpr {t : Token} (hword : t.isWord = true) {ts : List Token}
    (hts : totalWeight (t :: ts) < n + 1) :
    InStep (nameExpr expr a t) (nameExpr expr' b t) (t :: ts) (t :: ts)
      (totalWeight (t :: ts)) := by
  rw [totalWeight_cons] at hts ⊢
  have hle : t.weight + totalWeight ts ≤ n := by omega
  refine inStep_next_bind ((inStep_glued hexpr ha hb hword hle).bind_lockstep (n := n) ?_ hle)
  rintro ⟨name, indices⟩
  refine .ite ((lockstep_hasOperator _).bind fun _ => .ite ?_ (lockstep_pure _)) (lockstep_pure _)
  exact ((consumes_arguments hexpr ha.le hb.le).lockstep.mono (Nat.le_succ n)).bind
    fun _ => lockstep_pure _

omit ha hb in
lemma inStep_grouped {t : Token} (hkind : t.kind ≠ .error) {ts : List Token}
    (hts : totalWeight (t :: ts) < n + 1) :
    InStep (grouped expr) (grouped expr') (t :: ts) (t :: ts) (totalWeight (t :: ts)) :=
  Lockstep.behind_next hkind (hexpr.bind fun _ => (consumes_expectOperator _).lockstep.bind
    fun _ => lockstep_pure _) hts

lemma consumes_primaryOf : Consumes (n + 1) (primaryOf expr a) (primaryOf expr' b) := by
  refine consumes_peek_bind (consumes_failExpected _) fun t ts hts => ?_
  cases hkind : t.kind <;> simp only [hkind]
  case number | floatNumber | stringLiteral | charLiteral =>
    exact inStep_literal (by simp [hkind]) _ hts
  case keyword => exact inStep_keywordExpr hexpr ha hb hkind hts
  case identifier => exact inStep_nameExpr hexpr ha hb (by simp [Token.isWord, hkind]) hts
  case operator =>
    exact .ite (fun _ => inStep_grouped hexpr (by simp [hkind]) hts) fun _ =>
      consumes_failUnexpected _ _ _ hts
  case error => exact consumes_throw (by simp) _ hts
  case unknown => exact consumes_failUnexpected _ _ _ hts

/-! ## Behind and in front of primary expressions -/

lemma lockstep_trailers :
    ∀ {k steps steps' : Nat} (e : Expr), k ≤ n + 1 → k ≤ steps → k ≤ steps' →
      Lockstep k (trailers expr a steps e) (trailers expr' b steps' e)
  | 0, _, _, _, _, _, _ => lockstep_zero _ _
  | k + 1, steps + 1, steps' + 1, e, hk, hs, hs' => by
    have htrailers : ∀ e, Lockstep k (trailers expr a steps e) (trailers expr' b steps' e) :=
      fun e => lockstep_trailers e (by omega) (by omega) (by omega)
    refine lockstep_acceptOperator_bind (fun ts hts => ?_) ?_
    · refine inStep_anyToken_bind ?_
      rintro t us rfl
      rw [totalWeight_cons] at hts ⊢
      refine .ite (fun hword => ?_) fun _ => inStep_throw (by simp)
      have hle : t.weight + totalWeight us ≤ n := by omega
      have hglued := inStep_glued hexpr ha hb hword hle
      refine (hglued.bind_lockstep (n := k) ?_ hts.le).mono (Nat.le_succ _)
      rintro ⟨member, indices⟩
      refine (lockstep_hasOperator _).bind fun opens => .ite ?_ (htrailers _)
      exact ((consumes_arguments hexpr ha.le hb.le).lockstep.mono (by omega)).bind
        fun _ => htrailers _
    · refine (lockstep_hasOperator _).bind fun _ => .ite (Consumes.lockstep ?_) ?_
      · exact (consumes_expectOperator _).bind fun _ => (hexpr.mono (by omega)).bind fun _ =>
          (consumes_expectOperator _).lockstep.bind fun _ => htrailers _
      · refine lockstep_peek_bind (lockstep_pure _) fun t ts hts => ?_
        cases hstep : trailingStep? t with
        | none => simpa [hstep] using lockstep_pure e (t :: ts) hts
        | some op =>
          have hkind : t.kind ≠ .error := by
            intro hkind
            simp [trailingStep?, Token.isOperator, hkind] at hstep
          simp only [Option.bind_some, hstep]
          exact (Lockstep.behind_next (f := fun _ => pure (Expr.unary e.line op e)) hkind
            (lockstep_pure _) hts).mono (Nat.le_succ _)

lemma consumes_operand : Consumes (n + 1) (operand expr a) (operand expr' b) :=
  (consumes_primaryOf hexpr ha hb).bind fun _ =>
    lockstep_trailers hexpr ha hb _ (Nat.le_succ n) ha.le hb.le

end Expressions

section Layers

variable {operand operand' : Parser Expr}

lemma consumes_unaryOf :
    ∀ {n a b : Nat}, Consumes n operand operand' → n ≤ a → n ≤ b →
      Consumes n (unaryOf operand a) (unaryOf operand' b)
  | 0, _, _, _, _, _ => consumes_zero _ _
  | n + 1, a + 1, b + 1, hoperand, ha, hb => by
    refine consumes_peek_bind hoperand fun t ts hts => ?_
    cases hop : leadingOp? t with
    | none => simpa [hop] using hoperand (t :: ts) hts
    | some op =>
      have hinner : Lockstep n (unaryOf operand a) (unaryOf operand' b) :=
        (consumes_unaryOf (hoperand.mono (Nat.le_succ n)) (by omega) (by omega)).lockstep
      have hkind : t.kind ≠ .error := by
        intro hkind
        simp [leadingOp?, Token.isOperator, hkind] at hop
      simp only [hop]
      refine Lockstep.behind_next hkind (hinner.bind fun _ => ?_) hts
      cases op with
      | none => exact lockstep_pure _
      | some op => exact lockstep_pure _

lemma kind_ne_error_of_binaryOp? {ops : List BinaryOp} {t : Token} {op : BinaryOp}
    (h : binaryOp? ops t = some op) : t.kind ≠ .error := by
  intro hkind
  simp [binaryOp?, hkind] at h

lemma lockstep_chainFrom (ops : List BinaryOp) :
    ∀ {n a b : Nat} (left : Expr), Lockstep n operand operand' → n ≤ a → n ≤ b →
      Lockstep n (chainFrom ops operand a left) (chainFrom ops operand' b left)
  | 0, _, _, _, _, _, _ => lockstep_zero _ _
  | n + 1, a + 1, b + 1, left, hoperand, ha, hb => by
    refine lockstep_peek_bind (lockstep_pure _) fun t ts hts => ?_
    cases hop : binaryOp? ops t with
    | none => simpa [hop] using lockstep_pure left (t :: ts) hts
    | some op =>
      have hlow := hoperand.mono (Nat.le_succ n)
      simp only [hop]
      exact (Lockstep.behind_next (kind_ne_error_of_binaryOp? hop) (hlow.bind fun right =>
        lockstep_chainFrom ops _ hlow (by omega) (by omega)) hts).mono (Nat.le_succ _)

lemma consumes_chain (ops : List BinaryOp) {n a b : Nat} (hoperand : Consumes n operand operand')
    (ha : n ≤ a) (hb : n ≤ b) : Consumes n (chain ops operand a) (chain ops operand' b) := by
  cases n with
  | zero => exact consumes_zero _ _
  | succ n =>
    exact hoperand.bind fun first => lockstep_chainFrom ops first
      (hoperand.lockstep.mono (Nat.le_succ n)) (by omega) (by omega)

/-- A number that has lost its sign is no heavier, and the operand that starts with it consumes
something. -/
lemma lockstep_sumFrom :
    ∀ {n a b : Nat} (left : Expr), Consumes n operand operand' → n ≤ a → n ≤ b →
      Lockstep n (sumFrom operand a left) (sumFrom operand' b left)
  | 0, _, _, _, _, _, _ => lockstep_zero _ _
  | n + 1, a + 1, b + 1, left, hoperand, ha, hb => by
    refine lockstep_peek_bind (lockstep_pure _) fun t ts hts => ?_
    have hlow := hoperand.mono (Nat.le_succ n)
    have hrest : ∀ op : BinaryOp, Consumes (n + 1)
        (do let right ← operand; sumFrom operand a (.binary t.line op left right))
        (do let right ← operand'; sumFrom operand' b (.binary t.line op left right)) :=
      fun op => hoperand.bind fun _ => lockstep_sumFrom _ hlow (by omega) (by omega)
    cases hop : binaryOp? [.arith .add, .arith .sub] t with
    | some op =>
      simp only [hop]
      exact (Lockstep.behind_next (kind_ne_error_of_binaryOp? hop)
        ((hrest op).lockstep.mono (Nat.le_succ n)) hts).mono (Nat.le_succ _)
    | none =>
      cases hsign : signOp? t with
      | none => simpa [hop, hsign] using lockstep_pure left (t :: ts) hts
      | some op =>
        have hbehead := t.weight_behead_le
        have hkind : t.kind = .number ∨ t.kind = .floatNumber := by
          by_contra hkind
          simp [signOp?, hkind] at hsign
        rw [totalWeight_cons] at hts ⊢
        simp only [hop, hsign]
        refine inStep_next_bind (inStep_pushFront_bind t.behead ?_)
        refine ((hrest (.arith op)) (t.behead :: ts) ?_).behind
          (.behead (hkind.imp_right .inl) (.refl _)) ?_ <;>
          · rw [totalWeight_cons]
            omega

end Layers

section Knot

variable {n a b : Nat} {expr expr' : Parser Expr}

lemma consumes_disjunction (hexpr : Lockstep n expr expr') (ha : n < a) (hb : n < b) :
    Consumes (n + 1) (disjunction expr a) (disjunction expr' b) := by
  have hproduct : Consumes (n + 1) (product expr a) (product expr' b) :=
    consumes_chain _ (consumes_unaryOf (consumes_operand hexpr ha hb) ha hb) ha hb
  have hsum : Consumes (n + 1) (sum expr a) (sum expr' b) :=
    hproduct.bind fun left =>
      lockstep_sumFrom left (hproduct.mono (Nat.le_succ n)) ha.le hb.le
  have hrelation : Consumes (n + 1) (relation expr a) (relation expr' b) :=
    consumes_chain _ hsum ha hb
  have hequality : Consumes (n + 1) (equality expr a) (equality expr' b) :=
    consumes_chain _ hrelation ha hb
  exact consumes_chain _ (consumes_chain _ hequality ha hb) ha hb

/-- **A layer of expressions goes down.** Which inner expressions a parser of expressions meets on
tokens of a given weight is settled on lighter tokens. -/
lemma consumes_assignment (hexpr : Lockstep n expr expr') (ha : n < a) (hb : n < b) :
    Consumes (n + 1) (assignment expr a) (assignment expr' b) := by
  refine (consumes_disjunction hexpr ha hb).bind fun left => ?_
  cases n with
  | zero => exact lockstep_zero _ _
  | succ n =>
    have hlow := hexpr.mono (Nat.le_succ n)
    refine lockstep_peek_bind (lockstep_pure _) fun t ts hts => ?_
    refine .ite (fun hop => InStep.mono ?_ (Nat.le_succ _)) fun _ => ?_
    · exact Lockstep.behind_next (Token.kind_ne_error_of_isOperator hop)
        ((lockstep_initializerOf hlow (by omega) (by omega)).bind fun _ => lockstep_pure _) hts
    · cases hop : binaryOp? compoundOps t with
      | none => simpa [hop] using lockstep_pure left (t :: ts) hts
      | some op =>
        exact (Lockstep.behind_next (kind_ne_error_of_binaryOp? hop)
          (hlow.bind fun _ => lockstep_pure _) hts).mono (Nat.le_succ _)

end Knot

/-- **Expressions are in lockstep**, whatever their budgets, as long as these are no smaller than
the weight. -/
lemma consumes_exprWithin :
    ∀ {n a b : Nat}, n ≤ a → n ≤ b → Consumes n (exprWithin a) (exprWithin b)
  | 0, _, _, _, _ => consumes_zero _ _
  | n + 1, a + 1, b + 1, ha, hb =>
    consumes_assignment (consumes_exprWithin (n := n) (by omega) (by omega)).lockstep
      (by omega) (by omega)

end Grammar

end ClassLang
