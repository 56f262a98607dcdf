import ClassLang.Proofs.Target.Scanning

set_option autoImplicit false

/-!
# Grouping in generated operations

Parentheses in generated code follow the form of each operation: an operation with two operands has
them, an assignment has none, and an operator in front of its operand guards a sign only. Reading
the text back shows whether this keeps the grouping. It does as long as no assignment is an operand
of an operator; where one is, the operator in front of it is drawn into the target of the
assignment, or the operator behind it into the value.

## Main definitions

* `ClassLang.Expr.signed` — an expression with the minus in front of a number drawn into it.
* `ClassLang.Expr.AssignmentsOutside` — no assignment is an operand of an operator.

## Main results

* `ClassLang.Target.Legible.of_isScalar` — how the text of an expression on scalars is read back.
* `ClassLang.Target.operations_keep_grouping` — without assignments the grouping is kept.
* `ClassLang.Target.grouping_kept_iff` — with assignments it is kept exactly if they stand outside.
-/

namespace ClassLang

open Spelling (sign)

/-! ## Signs of numbers -/

namespace Expr

/-- An expression with a minus in front, which is drawn into a number without a sign. -/
def withMinus (line : Nat) : Expr → Expr
  | .literal line' ⟨.int i, text⟩ =>
    if text.toList.head?.any Char.isDigit then .literal line ⟨.int (-i), "-" ++ text⟩
    else .unary line .neg (.literal line' ⟨.int i, text⟩)
  | e => .unary line .neg e

/-- The expression with every minus in front of a number drawn into the number, which is how it is
written as well. -/
def signed : Expr → Expr
  | .unary line op operand =>
    if op = .neg then operand.signed.withMinus line else .unary line op operand.signed
  | .binary line op left right => .binary line op left.signed right.signed
  | .assign line target value => .assign line target.signed value.signed
  | e => e

/-- An expression without its lines and with the signs of numbers drawn in. -/
def bared (e : Expr) : Expr := e.signed.unlined

lemma unlined_withMinus (line : Nat) (e : Expr) :
    (e.withMinus line).unlined = e.unlined.withMinus 0 := by
  cases e with
  | literal line' l =>
    obtain ⟨value, text⟩ := l
    cases value with
    | int i =>
      simp only [withMinus, unlined]
      split <;> rfl
    | float _ | double _ | boolean _ | char _ | string _ | null => rfl
  | _ => rfl

/-- A minus is drawn into a number, or stands in front. -/
lemma withMinus_cases (line : Nat) (e : Expr) :
    (∃ line' i text, e = .literal line' ⟨.int i, text⟩ ∧
      e.withMinus line = .literal line ⟨.int (-i), "-" ++ text⟩) ∨
      e.withMinus line = .unary line .neg e := by
  unfold withMinus
  split
  next line' i text =>
    split
    · exact .inl ⟨line', i, text, rfl, rfl⟩
    · exact .inr rfl
  next => exact .inr rfl

lemma line_unlined (e : Expr) : e.unlined.line = 0 := by
  cases e <;> rfl

lemma withMinus_inj {a b : Expr} (h : a.unlined.withMinus 0 = b.unlined.withMinus 0) :
    a.unlined = b.unlined := by
  have hline := a.line_unlined
  have hline' := b.line_unlined
  rcases a.unlined.withMinus_cases 0 with ⟨la, i, text, ha, ha'⟩ | ha <;>
    rcases b.unlined.withMinus_cases 0 with ⟨lb, j, text', hb, hb'⟩ | hb
  · rw [ha] at hline
    rw [hb] at hline'
    obtain rfl : la = 0 := hline
    obtain rfl : lb = 0 := hline'
    rw [ha', hb'] at h
    simp only [literal.injEq, Literal.mk.injEq, Literal.Value.int.injEq, neg_inj, true_and,
      String.append_right_inj] at h
    rw [ha, hb, h.1, h.2]
  · rw [ha', hb] at h
    cases h
  · rw [ha, hb'] at h
    cases h
  · rw [ha, hb] at h
    exact (unary.inj h).2.2

/-- What is said about an operation with one operand up to lines and signs is said about the
operand. -/
lemma bared_unary_iff {line line' : Nat} {op : UnaryOp} {a b : Expr} :
    (Expr.unary line op a).bared = (Expr.unary line' op b).bared ↔ a.bared = b.bared := by
  simp only [bared, signed]
  by_cases hop : op = .neg
  · rw [if_pos hop, if_pos hop, unlined_withMinus, unlined_withMinus]
    exact ⟨withMinus_inj, fun h => by rw [h]⟩
  · rw [if_neg hop, if_neg hop]
    simp [unlined]

lemma bared_binary_iff {line line' : Nat} {op : BinaryOp} {a b c d : Expr} :
    (Expr.binary line op a b).bared = (Expr.binary line' op c d).bared ↔
      a.bared = c.bared ∧ b.bared = d.bared := by
  simp [bared, signed, unlined]

lemma bared_node_iff {line line' : Nat} {j : Joint} {a b c d : Expr} :
    (j.node line a b).bared = (j.node line' c d).bared ↔ a.bared = c.bared ∧ b.bared = d.bared := by
  cases j <;> simp [Joint.node, bared, signed, unlined]

/-- An assignment stays one. -/
lemma isAssignment_bared (e : Expr) : e.bared.isAssignment = e.isAssignment := by
  cases e with
  | unary line op operand =>
    simp only [bared, signed]
    split
    · rw [unlined_withMinus]
      rcases operand.signed.unlined.withMinus_cases 0 with ⟨_, _, _, -, h⟩ | h <;> rw [h] <;> rfl
    · rfl
  | _ => rfl

/-! ## Where assignments stand -/

/-- No assignment is an operand of an operator with one operand, or of an operator with two operands
that is no assignment itself. -/
def AssignmentsOutside : Expr → Prop
  | .binary _ op left right =>
    left.AssignmentsOutside ∧ right.AssignmentsOutside ∧
      (op.isAssignment = false → left.isAssignment = false ∧ right.isAssignment = false)
  | .unary _ _ operand => operand.AssignmentsOutside ∧ operand.isAssignment = false
  | .assign _ target value => target.AssignmentsOutside ∧ value.AssignmentsOutside
  | _ => True

/-- There is no assignment in the expression. -/
def AssignmentFree : Expr → Prop
  | .binary _ op left right => op.isAssignment = false ∧ left.AssignmentFree ∧ right.AssignmentFree
  | .unary _ _ operand => operand.AssignmentFree
  | .assign _ _ _ => False
  | _ => True

lemma AssignmentFree.isAssignment {e : Expr} (h : e.AssignmentFree) : e.isAssignment = false := by
  cases e with
  | binary _ _ _ _ => exact h.1
  | assign _ _ _ => exact h.elim
  | _ => rfl

lemma AssignmentFree.outside : {e : Expr} → e.AssignmentFree → e.AssignmentsOutside
  | .binary _ _ _ _, ⟨_, hleft, hright⟩ =>
    ⟨hleft.outside, hright.outside, fun _ => ⟨hleft.isAssignment, hright.isAssignment⟩⟩
  | .unary _ _ operand, h =>
    have hoperand : operand.AssignmentFree := h
    ⟨hoperand.outside, hoperand.isAssignment⟩
  | .literal _ _, _ | .var _ _, _ | .call _ _ _, _ | .methodCall _ _ _ _, _ | .index _ _ _, _
  | .field _ _ _, _ | .newObject _ _ _, _ | .newArray _ _ _ _, _ | .arrayInit _ _, _ => trivial

/-- Whether an assignment stands in the text of an expression outside of all parentheses. -/
def isOpen : Expr → Bool
  | .binary _ op _ _ => op.isAssignment
  | .unary _ op operand => !op.standsBehind && !operand.startsWithSign && operand.isOpen
  | .assign _ _ _ => true
  | _ => false

lemma isOpen_of_isAssignment {e : Expr} (h : e.isAssignment = true) : e.isOpen = true := by
  cases e with
  | binary _ _ _ _ => exact h
  | assign _ _ _ => rfl
  | _ => cases h

lemma isAssignment_of_isOpen_eq_false {e : Expr} (h : e.isOpen = false) :
    e.isAssignment = false := by
  rw [← Bool.not_eq_true]
  intro hassign
  rw [isOpen_of_isAssignment hassign] at h
  cases h

/-- An expression that is open but no assignment has an assignment for an operand. -/
lemma isAssignment_of_isOpen : {e : Expr} → e.isOpen = true → e.AssignmentsOutside →
    e.isAssignment = true
  | .binary _ _ _ _, h, _ => h
  | .unary _ op operand, h, ⟨houtside, hoperand⟩ => by
    simp only [isOpen, Bool.and_eq_true] at h
    rw [isAssignment_of_isOpen h.2 houtside] at hoperand
    cases hoperand
  | .assign _ _ _, _, _ => rfl

end Expr

namespace Target

open ClassLang.Grammar ClassLang.Parser

/-! ## Reading back -/

/-- The tokens with given spellings are read on layer `k`, and what is read is `e`, up to lines and
signs of numbers, exactly if no assignment in `e` is an operand. -/
def Regroups (k : Nat) (ss : List Spelling) (e : Expr) : Prop :=
  ∀ b ts, ts.map Token.spelling = ss → ts.length ≤ b →
    ∃ e', ParsesAt b k ts e' ∧ (e'.bared = e.bared ↔ e.AssignmentsOutside)

variable {ss : List Spelling} {e : Expr}

lemma Regroups.mono {j k : Nat} (hjk : j ≤ k) (hk : k ≤ 10) (h : Regroups k ss e) :
    Regroups j ss e := by
  intro b ts hts hlen
  obtain ⟨e', he', hiff⟩ := h b ts hts hlen
  exact ⟨e', he'.mono hjk hk hlen, hiff⟩

lemma Regroups.isOperand (h : Regroups 7 ss e) (hstarts : StartsExpr ss) : IsOperand ss where
  starts := hstarts
  parses := by
    intro b ts hts hlen
    obtain ⟨e', he', -⟩ := h b ts hts hlen
    exact ⟨e', he'⟩

/-- Parentheses change nothing about what stands in them. -/
lemma Regroups.parens (h : Regroups 0 ss e) :
    Regroups 7 (sign "(" :: ss ++ [sign ")"]) e := by
  intro b ts hts hlen
  obtain ⟨init, last, rfl, hinit, hlast⟩ := List.map_eq_append_iff.1 hts
  obtain ⟨left, mid, rfl, hleft, hmid⟩ := List.map_eq_cons_iff.1 hinit
  obtain ⟨right, rfl, hright⟩ := List.map_eq_singleton_iff.1 hlast
  have hlen' : mid.length + 2 ≤ b := by
    simp only [List.length_append, List.length_cons, List.length_nil] at hlen
    omega
  obtain ⟨b, rfl⟩ : ∃ n, b = n + 1 := ⟨b - 1, by omega⟩
  obtain ⟨e', he', hiff⟩ := h b mid hmid (by omega)
  have hgroup := parses_grouped hleft hright (reads_exprWithin he')
  exact ⟨e', hgroup.mono (by decide) le_rfl hlen, hiff⟩

/-- An operator in front of an operand that is no assignment. -/
lemma Regroups.front (h : Regroups 7 ss e) (he : e.isAssignment = false) {op : UnaryOp}
    (hop : op.standsBehind = false) (line : Nat) :
    Regroups 7 (sign op.text :: ss) (.unary line op e) := by
  intro b ts hts hlen
  obtain ⟨t, us, rfl, ht, hus⟩ := List.map_eq_cons_iff.1 hts
  have hlen' : us.length + 1 ≤ b := by simpa using hlen
  obtain ⟨e', he', hiff⟩ := h b us hus (by omega)
  refine ⟨_, he'.front hop ht, ?_⟩
  rw [Expr.bared_unary_iff, hiff]
  simp [Expr.AssignmentsOutside, he]

/-- An operator between operands that are no assignments. -/
lemma Regroups.binary {left right : Expr} {more : List Spelling} (hleft : Regroups 7 ss left)
    (hright : Regroups 7 more right) (hl : left.isAssignment = false)
    (hr : right.isAssignment = false) {op : BinaryOp} (hop : op.isAssignment = false) (line : Nat) :
    Regroups 0 (ss ++ sign op.text :: more) (.binary line op left right) := by
  intro b ts hts hlen
  obtain ⟨us, rest, rfl, hus, hrest⟩ := List.map_eq_append_iff.1 hts
  obtain ⟨t, vs, rfl, ht, hvs⟩ := List.map_eq_cons_iff.1 hrest
  have hlen' : us.length + (vs.length + 1) ≤ b := by simpa using hlen
  have hpos := BinaryOp.one_le_layer hop
  have h6 := op.layer_le_six
  obtain ⟨l, hlp, hliff⟩ := hleft.mono (by omega : op.layer ≤ 7) (by decide) b us hus (by omega)
  obtain ⟨r, hrp, hriff⟩ :=
    hright.mono (by omega : op.layer + 1 ≤ 7) (by decide) b vs hvs (by omega)
  have hparse := hlp.binary hpos (hrp.layerReads (by omega) (by omega)) ht hlen
  refine ⟨_, hparse.mono (Nat.zero_le _) (by omega) hlen, ?_⟩
  rw [Expr.bared_binary_iff, hliff, hriff]
  simp [Expr.AssignmentsOutside, hl, hr]

/-- An assignment takes what stands behind it for its value. -/
lemma Regroups.assign {target value : Expr} {more : List Spelling} {j : Joint} (hj : j.layer = 0)
    (htarget : Regroups 7 ss target) (hvalue : Regroups 0 more value) (hstarts : StartsExpr more)
    (line : Nat) : Regroups 0 (ss ++ sign j.text :: more) (j.node line target value) := by
  intro b ts hts hlen
  obtain ⟨us, rest, rfl, hus, hrest⟩ := List.map_eq_append_iff.1 hts
  obtain ⟨t, vs, rfl, ht, hvs⟩ := List.map_eq_cons_iff.1 hrest
  have hlen' : us.length + (vs.length + 1) ≤ b := by simpa using hlen
  obtain ⟨b, rfl⟩ : ∃ n, b = n + 1 := ⟨b - 1, by omega⟩
  obtain ⟨l, hlp, hliff⟩ := htarget.mono (by decide : 1 ≤ 7) (by decide) (b + 1) us hus (by omega)
  obtain ⟨r, hrp, hriff⟩ := hvalue b vs hvs (by omega)
  have hparse := parses_joint hj (hlp.layerReads (by decide) (by omega)) (reads_exprWithin hrp)
    (hvs ▸ hstarts) ht
  refine ⟨_, hparse, ?_⟩
  rw [Expr.bared_node_iff, hliff, hriff]
  cases j with
  | assignment => rfl
  | operator op => simp [Joint.node, Expr.AssignmentsOutside, op.isAssignment_iff.2 hj]

/-- Where an assignment stands outside of all parentheses, what is read is an assignment. -/
lemma regroups_of_exposes (h : Exposes ss) (he : e.isAssignment = false)
    (hnot : ¬ e.AssignmentsOutside) : Regroups 0 ss e := by
  intro b ts hts hlen
  obtain ⟨e', hassign, he'⟩ := h.parses hts hlen
  refine ⟨e', he', iff_of_false (fun hsame => ?_) hnot⟩
  rw [← e.isAssignment_bared, ← hsame, e'.isAssignment_bared, hassign] at he
  cases he

/-! ## The cases of an expression -/

lemma readDigits?_digits {cs : List Char} (hne : cs ≠ []) (hcs : cs.all Char.isDigit = true) :
    Number.readDigits? cs = some (Number.digitsValue 0 cs) := by
  rw [Number.readDigits?, if_pos]
  simp [hne, hcs]

lemma readInt?_digits {cs : List Char} (hne : cs ≠ []) (hcs : cs.all Char.isDigit = true) :
    Number.readInt? cs = some (Number.digitsValue 0 cs : Int) := by
  have hread := readDigits?_digits hne hcs
  cases cs with
  | nil => exact absurd rfl hne
  | cons c cs =>
    have hc : c.isDigit = true := (Bool.and_eq_true_iff.1 hcs).1
    rw [Number.readInt?, hread]
    · rfl
    · rintro _ ⟨⟩
      exact absurd hc (by decide)
    · rintro _ ⟨⟩
      exact absurd hc (by decide)

/-- An integer with a minus in front of it is an integer. -/
lemma consistent_negated {text : String} {i : Int} (hl : Literal.Consistent ⟨.int i, text⟩)
    (hunsigned : Literal.IsUnsigned ⟨.int i, text⟩) :
    Literal.Consistent ⟨.int (-i), "-" ++ text⟩ := by
  obtain ⟨hne, hdigits⟩ := Expr.digits_of_isUnsigned hl hunsigned
  simp only [Literal.Consistent, Number.readInt64?, readInt?_digits hne hdigits,
    Option.filter_eq_some_iff, Option.some.injEq] at hl
  obtain ⟨rfl, hfits⟩ := hl
  have hminus : Number.readInt? ("-" ++ text).toList =
      some (-(Number.digitsValue 0 text.toList : Int)) := by
    have htext : ("-" ++ text).toList = '-' :: text.toList := by simp
    rw [htext, Number.readInt?, readDigits?_digits hne hdigits]
    rfl
  simp only [Literal.Consistent, Number.readInt64?, hminus, Option.filter_eq_some_iff]
  refine ⟨trivial, ?_⟩
  simp only [Number.fitsInt64, Bool.and_eq_true, decide_eq_true_eq] at hfits ⊢
  omega

lemma exists_of_isNumeral (h : e.isNumeral = true) :
    ∃ line i text, e = .literal line ⟨.int i, text⟩ := by
  unfold Expr.isNumeral at h
  split at h
  · exact ⟨_, _, _, rfl⟩
  · cases h

/-- A number that has drawn in the minus in front of it. -/
lemma regroups_negated {line line' : Nat} {text : String} {i : Int}
    (he : (Expr.literal line' ⟨.int i, text⟩).IsScalar) :
    Regroups 7 [(.number, "-" ++ text)] (.unary line .neg (.literal line' ⟨.int i, text⟩)) := by
  intro b ts hts hlen
  obtain ⟨t, rfl, ht⟩ := List.map_eq_singleton_iff.1 hts
  have hparse := parses_literal b (consistent_negated he.1 he.2) ht
  refine ⟨_, hparse.mono (by decide) le_rfl hlen, iff_of_true ?_ ⟨trivial, rfl⟩⟩
  have hdigit : text.toList.head?.any Char.isDigit = true := he.2
  simp [Expr.bared, Expr.signed, Expr.withMinus, Expr.unlined, hdigit]

/-- Every expression on scalars starts like an expression. -/
lemma startsExpr_written : (e : Expr) → e.IsScalar → ∀ wrapped folds,
    StartsExpr (e.written wrapped folds)
  | .literal _ l, ⟨_, hunsigned⟩, _, _ => by
    obtain ⟨value, text⟩ := l
    cases value with
    | int i => exact ⟨_, [], rfl, by simp [Literal.Value.kind], by simp [Literal.Value.kind]⟩
    | boolean b => exact ⟨_, [], rfl, by simp [Literal.Value.kind], by simp [Literal.Value.kind]⟩
    | float _ | double _ | char _ | string _ | null => exact hunsigned.elim
  | .var _ name, _, _, _ => ⟨_, [], rfl, by simp, by simp⟩
  | .binary _ op left right, ⟨_, hleft, _⟩, wrapped, folds => by
    simp only [Expr.written]
    split
    · exact ⟨sign "(", _, rfl, by decide, by decide⟩
    · exact (startsExpr_written left hleft true folds).append _
  | .unary _ op operand, ⟨_, hoperand⟩, wrapped, folds => by
    have hop : sign op.text ≠ sign ")" ∧ sign op.text ≠ sign openBrace := by cases op <;> decide
    simp only [Expr.written]
    split_ifs with hbehind hguard hfold
    · exact (startsExpr_written operand hoperand true folds).append _
    · exact ⟨_, _, rfl, hop.1, hop.2⟩
    · simp only [Bool.and_eq_true, decide_eq_true_eq] at hfold
      obtain ⟨line, i, text, rfl⟩ := exists_of_isNumeral hfold.2
      exact ⟨_, [], rfl, by simp [Literal.Value.kind], by simp [Literal.Value.kind]⟩
    · exact ⟨_, _, rfl, hop.1, hop.2⟩
  | .assign _ target value, ⟨_, htarget, _⟩, wrapped, folds =>
    (startsExpr_written target htarget true folds).append _

/-- How the text of an expression is read back, in parentheses and without. -/
structure Legible (e : Expr) : Prop where
  closed : e.isOpen = false → ∀ folds, Regroups 7 (e.written true folds) e
  opened : e.isOpen = true → ∀ folds, Exposes (e.written true folds)
  whole : ∀ wrapped folds, Regroups 0 (e.written wrapped folds) e
  chain : ∀ wrapped folds, OperandChain 0 (e.written wrapped folds)

namespace Legible

/-- An expression that is read as one operand. -/
lemma of_closed (he : e.IsScalar) (hclosed : e.isOpen = false)
    (hbare : ∀ wrapped folds, e.written wrapped folds = e.written true folds)
    (h : ∀ folds, Regroups 7 (e.written true folds) e) : Legible e where
  closed _ := h
  opened hopen := by
    rw [hclosed] at hopen
    cases hopen
  whole wrapped folds := by
    rw [hbare]
    exact (h folds).mono (by decide) (by decide)
  chain wrapped folds := by
    rw [hbare]
    exact .operand ((h folds).isOperand (startsExpr_written e he true folds))

/-- An expression whose text has an assignment in it that no parentheses enclose. -/
lemma of_open (hopen : e.isOpen = true)
    (hbare : ∀ wrapped folds, e.written wrapped folds = e.written true folds)
    (hexposes : ∀ folds, Exposes (e.written true folds))
    (h : ∀ folds, Regroups 0 (e.written true folds) e) : Legible e where
  closed hclosed := by
    rw [hopen] at hclosed
    cases hclosed
  opened _ := hexposes
  whole wrapped folds := by
    rw [hbare]
    exact h folds
  chain wrapped folds := by
    rw [hbare]
    exact (hexposes folds).chain

lemma literal {line : Nat} {l : Literal} (he : (Expr.literal line l).IsScalar) :
    Legible (.literal line l) := by
  refine of_closed he rfl (fun _ _ => rfl) fun folds b ts hts hlen => ?_
  obtain ⟨t, rfl, ht⟩ := List.map_eq_singleton_iff.1 hts
  have hparse := parses_literal b he.1 ht
  exact ⟨_, hparse.mono (by decide) le_rfl hlen, iff_of_true rfl trivial⟩

lemma var {line : Nat} {name : String} (he : (Expr.var line name).IsScalar) :
    Legible (.var line name) := by
  refine of_closed he rfl (fun _ _ => rfl) fun folds b ts hts hlen => ?_
  obtain ⟨t, rfl, ht⟩ := List.map_eq_singleton_iff.1 hts
  have hparse := parses_var b he.noBrackets ht
  exact ⟨_, hparse.mono (by decide) le_rfl hlen, iff_of_true rfl trivial⟩

/-- A chain without assignments, if no assignment is open. -/
lemma operandChain (h : Legible e) (he : e.IsScalar) (hclosed : e.isOpen = false) (folds : Bool) :
    OperandChain 1 (e.written true folds) :=
  .operand ((h.closed hclosed folds).isOperand (startsExpr_written e he true folds))

/-- Two operands with an operator between them, of which one is open: an assignment is an operand.
-/
lemma binary_open {left right : Expr} (hleft : Legible left) (hright : Legible right)
    (hl : left.IsScalar) {op : BinaryOp} (hop : op.isAssignment = false)
    (hopen : left.isOpen = true ∨ right.isOpen = true) (line : Nat) (folds : Bool) :
    Regroups 0 (left.written true folds ++ sign op.text :: right.written true true)
      (.binary line op left right) := by
  have hpos : 1 ≤ (Joint.operator op).layer := BinaryOp.one_le_layer hop
  have hexposes : Exposes
      (left.written true folds ++ sign (Joint.operator op).text :: right.written true true) := by
    cases hlo : left.isOpen with
    | true => exact (hleft.opened hlo folds).append_left _ (hright.chain true true)
    | false =>
      rw [hlo] at hopen
      have hro : right.isOpen = true := hopen.resolve_left (by decide)
      exact Exposes.append_right (hleft.operandChain hl hlo folds) hpos (hright.opened hro true)
  refine regroups_of_exposes hexposes hop ?_
  rintro ⟨hlout, hrout, hnot⟩
  obtain ⟨hl, hr⟩ := hnot hop
  rcases hopen with ho | ho
  · rw [Expr.isAssignment_of_isOpen ho hlout] at hl
    cases hl
  · rw [Expr.isAssignment_of_isOpen ho hrout] at hr
    cases hr

/-- An operator that is no assignment between two operands. -/
lemma binary {left right : Expr} (hleft : Legible left) (hright : Legible right) {line : Nat}
    {op : BinaryOp} (he : (Expr.binary line op left right).IsScalar)
    (hop : op.isAssignment = false) : Legible (.binary line op left right) := by
  obtain ⟨-, hl, -⟩ := he
  have hbare : ∀ folds, (Expr.binary line op left right).written false folds =
      left.written true folds ++ sign op.text :: right.written true true := by
    intro folds
    simp [Expr.written, hop]
  have hwrapped : ∀ folds, (Expr.binary line op left right).written true folds =
      sign "(" :: (Expr.binary line op left right).written false false ++ [sign ")"] := by
    intro folds
    simp [Expr.written, hop]
  have hwhole : ∀ folds, Regroups 0 ((Expr.binary line op left right).written false folds)
      (.binary line op left right) := by
    intro folds
    rw [hbare]
    by_cases hopen : left.isOpen = true ∨ right.isOpen = true
    · exact hleft.binary_open hright hl hop hopen line folds
    · rw [not_or, Bool.not_eq_true, Bool.not_eq_true] at hopen
      obtain ⟨hlo, hro⟩ := hopen
      exact (hleft.closed hlo folds).binary (hright.closed hro true)
        (Expr.isAssignment_of_isOpen_eq_false hlo) (Expr.isAssignment_of_isOpen_eq_false hro) hop
        line
  have hclosed : ∀ folds, Regroups 7 ((Expr.binary line op left right).written true folds)
      (.binary line op left right) := by
    intro folds
    rw [hwrapped]
    exact (hwhole false).parens
  constructor
  · exact fun _ => hclosed
  · intro hopen
    rw [Expr.isOpen, hop] at hopen
    cases hopen
  · intro wrapped folds
    cases wrapped with
    | true => exact (hclosed folds).mono (by decide) (by decide)
    | false => exact hwhole folds
  · intro wrapped folds
    cases wrapped with
    | true =>
      have hstarts : StartsExpr ((Expr.binary line op left right).written true folds) := by
        rw [hwrapped]
        exact ⟨sign "(", _, rfl, by decide, by decide⟩
      exact .operand ((hclosed folds).isOperand hstarts)
    | false =>
      rw [hbare]
      exact (hleft.chain true folds).append (j := .operator op) (Nat.zero_le _)
        (hright.chain true true)

/-- An assignment of either sort. -/
lemma assign {target value : Expr} (htarget : Legible target) (hvalue : Legible value)
    (ht : target.IsScalar) (hvar : target.isVariable = true) (hv : value.IsScalar) {j : Joint}
    (hj : j.layer = 0) (line : Nat) : Legible (j.node line target value) := by
  have hwritten : ∀ wrapped folds, (j.node line target value).written wrapped folds =
      target.written true folds ++ sign j.text :: value.written false true := by
    intro wrapped folds
    cases j with
    | assignment => rfl
    | operator op => simp [Joint.node, Joint.text, Expr.written, op.isAssignment_iff.2 hj]
  have hclosed : target.isOpen = false := by
    cases target with
    | var _ _ => rfl
    | _ => cases hvar
  have hopen : (j.node line target value).isOpen = true :=
    Expr.isOpen_of_isAssignment (Joint.isAssignment_node hj line target value)
  refine of_open hopen (fun _ _ => by rw [hwritten, hwritten]) (fun folds => ?_) fun folds => ?_
  · rw [hwritten]
    exact ⟨_, j, _, rfl, hj, htarget.operandChain ht hclosed folds, hvalue.chain false true⟩
  · rw [hwritten]
    exact Regroups.assign hj (htarget.closed hclosed folds) (hvalue.whole false true)
      (startsExpr_written value hv false true) line

/-- A step behind a variable. -/
lemma behind {operand : Expr} {line : Nat} {op : UnaryOp}
    (he : (Expr.unary line op operand).IsScalar) (hop : op.standsBehind = true) :
    Legible (.unary line op operand) := by
  have hclosed : (Expr.unary line op operand).isOpen = false := by simp [Expr.isOpen, hop]
  refine of_closed he hclosed (fun _ _ => rfl) fun folds b ts hts hlen => ?_
  obtain ⟨hvar, hoperand⟩ := he
  cases operand with
  | var line' name =>
    have hts : ts.map Token.spelling = [(.identifier, name), sign op.text] := by
      simpa [Expr.written, hop] using hts
    obtain ⟨t, us, rfl, ht, hus⟩ := List.map_eq_cons_iff.1 hts
    obtain ⟨u, rfl, hu⟩ := List.map_eq_singleton_iff.1 hus
    have hlen' : [t].length ≤ b := by
      simp only [List.length_cons, List.length_nil] at hlen ⊢
      omega
    have hparse := (parses_var b hoperand.noBrackets ht).descend (by decide) hlen'
    have hstep := hparse.behind hop hu hlen
    refine ⟨_, hstep.mono (by decide) (by decide) hlen, iff_of_true ?_ ⟨trivial, rfl⟩⟩
    rw [Expr.bared_unary_iff]
    rfl
  | _ => cases hvar hop

/-- An operator in front of an operand. -/
lemma front {operand : Expr} (h : Legible operand) {line : Nat} {op : UnaryOp}
    (he : (Expr.unary line op operand).IsScalar) (hop : op.standsBehind = false) :
    Legible (.unary line op operand) := by
  obtain ⟨-, hoperand⟩ := id he
  cases hguard : operand.startsWithSign with
  | true =>
    have hclosed : (Expr.unary line op operand).isOpen = false := by simp [Expr.isOpen, hguard]
    have hassign : operand.isAssignment = false := by
      cases operand with
      | unary _ _ _ => rfl
      | _ => cases hguard
    refine of_closed he hclosed (fun _ _ => rfl) fun folds => ?_
    simp only [Expr.written, hop, hguard, Bool.false_eq_true, if_false, if_true]
    exact ((h.whole true false).parens).front hassign hop line
  | false =>
    cases hopen : operand.isOpen with
    | true =>
      have hopen' : (Expr.unary line op operand).isOpen = true := by
        simp [Expr.isOpen, hop, hguard, hopen]
      have hnumeral : operand.isNumeral = false := by
        cases operand with
        | literal _ _ => cases hopen
        | _ => rfl
      have hwritten : ∀ folds, (Expr.unary line op operand).written true folds =
          sign op.text :: operand.written true false := by
        intro folds
        simp [Expr.written, hop, hguard, hnumeral]
      have hexposes : Exposes (sign op.text :: operand.written true false) :=
        (h.opened hopen false).front hop
      refine of_open hopen' (fun _ _ => rfl) (fun folds => by rwa [hwritten]) fun folds => ?_
      rw [hwritten]
      refine regroups_of_exposes hexposes rfl ?_
      rintro ⟨houtside, hnot⟩
      rw [Expr.isAssignment_of_isOpen hopen houtside] at hnot
      cases hnot
    | false =>
      have hclosed : (Expr.unary line op operand).isOpen = false := by simp [Expr.isOpen, hopen]
      refine of_closed he hclosed (fun _ _ => rfl) fun folds => ?_
      simp only [Expr.written, hop, hguard, Bool.false_eq_true, if_false]
      split_ifs with hfold
      · simp only [Bool.and_eq_true, decide_eq_true_eq] at hfold
        obtain ⟨⟨rfl, -⟩, hnumeral⟩ := hfold
        obtain ⟨line', i, text, rfl⟩ := exists_of_isNumeral hnumeral
        exact regroups_negated hoperand
      · exact (h.closed hopen false).front (Expr.isAssignment_of_isOpen_eq_false hopen) hop line

/-- How the text of every expression on scalars is read back. -/
theorem of_isScalar : (e : Expr) → e.IsScalar → Legible e
  | .literal _ _, he => literal he
  | .var _ _, he => var he
  | .binary line op left right, he => by
    have hleft := of_isScalar left he.2.1
    have hright := of_isScalar right he.2.2
    cases hop : op.isAssignment with
    | true =>
      have hj : (Joint.operator op).layer = 0 := op.isAssignment_iff.1 hop
      exact hleft.assign hright he.2.1 (he.1 hop) he.2.2 hj line
    | false => exact hleft.binary hright he hop
  | .unary line op operand, he => by
    have hoperand := of_isScalar operand he.2
    cases hop : op.standsBehind with
    | true => exact behind he hop
    | false => exact hoperand.front he hop
  | .assign line target value, he =>
    (of_isScalar target he.2.1).assign (of_isScalar value he.2.2) he.2.1 he.1 he.2.2
      (j := .assignment) rfl line

end Legible

/-! ## Generated texts -/

/-- What is read off the text of an expression on scalars. -/
lemma reads_code (he : e.IsScalar) (wrapped : Bool) :
    ∃ e' c, expr.runFrom (.ofTokens (tokenize (String.ofList (e.code wrapped)))) = (.ok e', c) ∧
      c.upcoming = [] ∧ (e'.bared = e.bared ↔ e.AssignmentsOutside) := by
  have hspell := Expr.spellings_tokenize he wrapped
  generalize tokenize (String.ofList (e.code wrapped)) = ts at hspell
  let c := Cursor.ofTokens ts
  have hc : c.upcoming = ts := Cursor.upcoming_ofTokens ts
  have hlen : ts.length ≤ c.weight := hc ▸ c.length_upcoming_le_weight
  obtain ⟨e', hparse, hiff⟩ := (Legible.of_isScalar e he).whole wrapped true c.weight ts hspell hlen
  have hread := hparse [] (fun _ h => by cases h) c (by rw [hc, List.append_nil])
  obtain ⟨c', hrun, hupcoming⟩ := hread
  refine ⟨e', c', ?_, hupcoming, hiff⟩
  rw [expr, runFrom_withBudget]
  exact hrun

/-- A text is read, to its end, as an expression, up to lines and signs of numbers. -/
def ReadsBackAs (text : String) (e : Expr) : Prop :=
  ∃ e' c, expr.runFrom (.ofTokens (tokenize text)) = (.ok e', c) ∧ c.upcoming = [] ∧
    e'.bared = e.bared

/-- **Generated operations keep their grouping.** Where all variables are integers or truth values,
the text of an operation without assignments is generated, with parentheses around it or without,
and either text is read back as the operation.

**Proof sketch.** The text is scanned into the signs and operands that it was put together from
(`Expr.spellings_tokenize`). Every operand is read as one, since an operation with two operands is
in parentheses, and an operator in front of a sign is kept apart from it. -/
theorem operations_keep_grouping (env : Env) (henv : env.AllScalar) (e : Expr) (he : e.IsScalar)
    (hfree : e.AssignmentFree) (needs : Needs) :
    ∃ text bare, (exprText env e).runFrom needs = (.ok text, needs) ∧
      (bareText env e).runFrom needs = (.ok bare, needs) ∧
      ReadsBackAs text e ∧ ReadsBackAs bare e := by
  refine ⟨_, _, by rw [exprText_eq henv he]; rfl, by rw [bareText_eq henv he]; rfl, ?_, ?_⟩
  · obtain ⟨e', c, hrun, hend, hiff⟩ := reads_code he true
    exact ⟨e', c, hrun, hend, hiff.2 hfree.outside⟩
  · obtain ⟨e', c, hrun, hend, hiff⟩ := reads_code he false
    exact ⟨e', c, hrun, hend, hiff.2 hfree.outside⟩

namespace Sample

/-- A scope with an integer and a truth value in it. -/
def env : Env where
  fields := []
  methods := []
  classes := []
  scopes := [[("x", .simple "int"), ("flag", .simple "boolean")]]

lemma allScalar_env : env.AllScalar := by
  intro name type htype
  have hlookup : List.lookup name [("x", TypeExpr.simple "int"), ("flag", .simple "boolean")] =
      some type := by
    simpa [env, Env.lookup] using htype
  simp only [List.lookup_cons, List.lookup_nil] at hlookup
  split at hlookup
  · exact .inl (Option.some.inj hlookup).symm
  · split at hlookup
    · exact .inr (Option.some.inj hlookup).symm
    · cases hlookup

lemma isName_x : IsName "x" := ⟨by decide, by decide, by decide, by unfold BracketFree; decide⟩

lemma isName_flag : IsName "flag" :=
  ⟨by decide, by decide, by decide, by unfold BracketFree; decide⟩

/-- `-(-3) - --x * x++ < -2 && !flag`, with its groups as they bind. -/
def operation : Expr :=
  .binary 1 .and
    (.binary 1 (.order .lt)
      (.binary 1 (.arith .sub) (.unary 1 .neg (.unary 1 .neg (.literal 1 ⟨.int 3, "3"⟩)))
        (.binary 1 (.arith .mul) (.unary 1 .preDec (.var 1 "x")) (.unary 1 .postInc (.var 1 "x"))))
      (.unary 1 .neg (.literal 1 ⟨.int 2, "2"⟩)))
    (.unary 1 .not (.var 1 "flag"))

lemma isScalar_operation : operation.IsScalar := by
  simp only [operation, Expr.IsScalar, Literal.Consistent, Literal.IsUnsigned, isName_x,
    isName_flag]
  decide

end Sample

/-- The text of a nest of operators without assignments is read back. -/
theorem operations_keep_grouping_nested :
    Sample.env.AllScalar ∧ Sample.operation.IsScalar ∧ Sample.operation.AssignmentFree ∧
      ∃ text bare, (exprText Sample.env Sample.operation).runFrom {} = (.ok text, {}) ∧
        (bareText Sample.env Sample.operation).runFrom {} = (.ok bare, {}) ∧
        ReadsBackAs text Sample.operation ∧ ReadsBackAs bare Sample.operation := by
  have hfree : Sample.operation.AssignmentFree := by
    simp [Sample.operation, Expr.AssignmentFree, BinaryOp.isAssignment]
  exact ⟨Sample.allScalar_env, Sample.isScalar_operation, hfree,
    operations_keep_grouping _ Sample.allScalar_env _ Sample.isScalar_operation hfree {}⟩

/-- **Assignments lose their place in generated operations.** Where all variables are integers or
truth values, the text of an expression is read to its end; and it is read back as the expression
exactly if no assignment in it is an operand of an operator.

**Proof sketch.** Where no assignment is an operand, the text of every operand is read as one, and
an assignment takes all that stands behind it for its value. Where one is, it stands without
parentheses beside the operator, so that an assignment is read there instead of the operation. -/
theorem grouping_kept_iff (env : Env) (henv : env.AllScalar) (e : Expr) (he : e.IsScalar)
    (needs : Needs) :
    ∃ text e' c, (exprText env e).runFrom needs = (.ok text, needs) ∧
      expr.runFrom (.ofTokens (tokenize text)) = (.ok e', c) ∧ c.upcoming = [] ∧
      (e'.bared = e.bared ↔ e.AssignmentsOutside) := by
  obtain ⟨e', c, hrun, hend, hiff⟩ := reads_code he true
  exact ⟨_, e', c, by rw [exprText_eq henv he]; rfl, hrun, hend, hiff⟩

namespace Sample

/-- `(x = 5) + 1`. -/
def sum : Expr :=
  .binary 1 (.arith .add) (.assign 1 (.var 1 "x") (.literal 1 ⟨.int 5, "5"⟩))
    (.literal 1 ⟨.int 1, "1"⟩)

lemma isScalar_sum : sum.IsScalar := by
  simp only [sum, Expr.IsScalar, Literal.Consistent, Literal.IsUnsigned, isName_x]
  decide

end Sample

/-- The text of a sum with an assignment for its left operand is read to its end. -/
theorem grouping_kept_iff_sum :
    Sample.env.AllScalar ∧ Sample.sum.IsScalar ∧
      ∃ text e' c, (exprText Sample.env Sample.sum).runFrom {} = (.ok text, {}) ∧
        expr.runFrom (.ofTokens (tokenize text)) = (.ok e', c) ∧ c.upcoming = [] ∧
        (e'.bared = Sample.sum.bared ↔ Sample.sum.AssignmentsOutside) :=
  ⟨Sample.allScalar_env, Sample.isScalar_sum,
    grouping_kept_iff _ Sample.allScalar_env _ Sample.isScalar_sum {}⟩

/-- A sum with an assignment for its left operand is read back as an assignment of a sum. -/
theorem sum_read_back_as_assignment :
    (exprText Sample.env Sample.sum).runFrom {} = (.ok "(x = 5 + 1)", {}) ∧
      ∃ e' c, expr.runFrom (.ofTokens (tokenize "(x = 5 + 1)")) = (.ok e', c) ∧
        e'.isAssignment = true ∧ e'.bared ≠ Sample.sum.bared := by
  refine ⟨by rw [exprText_eq Sample.allScalar_env Sample.isScalar_sum]; rfl, ?_⟩
  have hread : ((expr.runFrom (.ofTokens (tokenize "(x = 5 + 1)"))).1.toOption.map
      Expr.isAssignment) = some true := by decide +kernel
  rcases hrun : expr.runFrom (.ofTokens (tokenize "(x = 5 + 1)")) with ⟨_ | e', c⟩
  · rw [hrun] at hread
    cases hread
  · rw [hrun] at hread
    have hassign : e'.isAssignment = true := Option.some.inj hread
    refine ⟨e', c, rfl, hassign, fun hsame => ?_⟩
    rw [← e'.isAssignment_bared, hsame, Sample.sum.isAssignment_bared] at hassign
    cases hassign

end Target

end ClassLang
