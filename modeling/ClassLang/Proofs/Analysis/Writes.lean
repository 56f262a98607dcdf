import ClassLang.Proofs.Analysis.Nodes
import ClassLang.Proofs.Ty.Assignability

set_option autoImplicit false

/-!
# What programs write to

An expression writes to a slot if it is an assignment, a compound assignment, or a step up or down
of its operand. In an accepted program the two kinds of assignments go to variables, elements and
fields only. Steps are checked by the type of their operand alone, so they are also found at other
expressions with a numeric type. In all cases a name that is written to is that of a variable. For
an assignment this is what is checked; all other writes are to numbers and strings, and the name of a
class has neither type.

## Main definitions

* `ClassLang.Expr.written?` — what an expression writes to.

## Main results

* `ClassLang.Typing.slot_of_written` — what an expression with a type writes to.
* `ClassLang.Program.slot_of_write` — what the expressions of an accepted program write to.
-/

namespace ClassLang

/-- What the expression writes to. -/
def Expr.written? : Expr → Option Expr
  | .assign _ target _ => some target
  | .binary _ (.assign _) left _ => some left
  | .unary _ op operand => if op.isStep then some operand else none
  | _ => none

/-- The expression is no name, or the name of a variable. -/
def Scopes.NamesVar (s : Scopes) (e : Expr) : Prop :=
  ∀ line name, e = .var line name → ∃ symbol, s.resolve name = some symbol ∧ symbol.isVar = true

namespace Typing

variable {s : Scopes} {line : Nat}

/-! ## Names -/

lemma exists_of_slotType {name : String} {t : Ty} (h : slotType s line name = .ok t) :
    ∃ symbol, s.resolve name = some symbol ∧ symbol.isVar = true := by
  unfold slotType at h
  split at h
  case h_1 => cases h
  case h_2 symbol hsymbol =>
    split at h
    case isTrue hvar => exact ⟨symbol, hsymbol, hvar⟩
    case isFalse => cases h

/-- A name with a type is that of a variable or of a class. -/
lemma exists_of_nameType {name : String} {t : Ty} (h : nameType s line name = .ok t) :
    ∃ symbol, s.resolve name = some symbol ∧ (symbol.isVar = true ∨ ∃ c, t = .named c) := by
  unfold nameType at h
  split at h
  case h_1 => cases h
  case h_2 symbol hsymbol =>
    refine ⟨symbol, hsymbol, ?_⟩
    split at h
    case isTrue hkind =>
      obtain rfl := Except.ok.inj h
      cases symbol with
      | var name type => exact .inl rfl
      | classDef name typeParams members => exact .inr ⟨name, rfl⟩
      | function | typeParam => cases hkind
    case isFalse => cases h

/-- Nothing but a variable has a name with a type that is not that of a class. -/
lemma namesVar_of_typeOf {e : Expr} {t : Ty} (h : typeOf s e = .ok t)
    (hplain : t.isNumeric = true ∨ t = .string) : s.NamesVar e := by
  rintro line name rfl
  obtain ⟨symbol, hsymbol, hvar | ⟨c, rfl⟩⟩ := exists_of_nameType h
  · exact ⟨symbol, hsymbol, hvar⟩
  · rcases hplain with hplain | hplain <;> cases hplain

/-! ## Writes -/

/-- A compound assignment goes to a slot for numbers or for strings. -/
lemma plain_of_compoundType {op : Arith} {isSlot : Bool} {left right t : Ty}
    (h : compoundType line op isSlot left right = .ok t) :
    isSlot = true ∧ (left.isNumeric = true ∨ left = .string) := by
  obtain ⟨_, hslot, h⟩ := bind_eq_ok.1 h
  refine ⟨ensure_eq_ok.1 hslot, ?_⟩
  unfold arithType? at h
  split at h
  case h_1 => cases h
  case h_2 result hresult =>
    obtain ⟨_, hassignable, -⟩ := bind_eq_ok.1 h
    have hassignable := ensure_eq_ok.1 hassignable
    split at hresult
    case isTrue =>
      obtain rfl := Option.some.inj hresult
      exact .inr (Ty.isAssignableTo_iff_fits.1 hassignable).eq_string
    case isFalse =>
      split at hresult
      case isTrue hnumeric => exact .inl (Bool.and_eq_true_iff.1 hnumeric).1
      case isFalse => cases hresult

lemma isNumeric_of_unaryType {op : UnaryOp} {operand t : Ty} (hstep : op.isStep = true)
    (h : unaryType line op operand = .ok t) : operand.isNumeric = true := by
  cases op with
  | neg | not => cases hstep
  | _ =>
    by_contra hnumeric
    simp [unaryType, hnumeric, fail] at h

lemma isLValue_of_targetType {e : Expr} {t : Ty} (h : targetType s e = .ok t) :
    e.isLValue = true := by
  cases e with
  | var | index | field => rfl
  | _ => cases h

/-- **What an expression with a type writes to.** -/
theorem slot_of_written {e slot : Expr} {t : Ty} (h : typeOf s e = .ok t)
    (hwritten : e.written? = some slot) :
    s.NamesVar slot ∧
      (slot.isLValue = true ∨ (∃ line op, e = .unary line op slot) ∧
        ∃ u, typeOf s slot = .ok u ∧ u.isNumeric = true) := by
  cases e with
  | assign line target value =>
    obtain rfl := Option.some.inj hwritten
    obtain ⟨u, hu, -⟩ := bind_eq_ok.1 h
    refine ⟨?_, .inl (isLValue_of_targetType hu)⟩
    rintro line name rfl
    exact exists_of_slotType hu
  | binary line op left right =>
    cases op with
    | assign op =>
      obtain rfl := Option.some.inj hwritten
      obtain ⟨l, hl, h⟩ := bind_eq_ok.1 h
      obtain ⟨r, -, h⟩ := bind_eq_ok.1 h
      obtain ⟨hslot, hplain⟩ := plain_of_compoundType h
      exact ⟨namesVar_of_typeOf hl hplain, .inl hslot⟩
    | _ => cases hwritten
  | unary line op operand =>
    obtain ⟨u, hu, h⟩ := bind_eq_ok.1 h
    simp only [Expr.written?, Option.ite_none_right_eq_some, Option.some.injEq] at hwritten
    obtain ⟨hstep, rfl⟩ := hwritten
    have hnumeric := isNumeric_of_unaryType hstep h
    exact ⟨namesVar_of_typeOf hu (.inl hnumeric), .inr ⟨⟨line, op, rfl⟩, u, hu, hnumeric⟩⟩
  | _ => cases hwritten

end Typing

open Target

namespace Program

/-- **What accepted programs write to.** Each expression in an accepted program that writes to a
slot stands at a site, and there the slot is a variable, an element or a field, or else the
expression is a step up or down of an operand with a numeric type. If the slot is a name, it is the
name of a variable. -/
theorem slot_of_write (a : Analyzer) (p : Program) (haccepted : (a.analyze p).1 = []) (role : Role)
    (e slot : Expr) (hnode : p.HasNode (role, e)) (hwritten : e.written? = some slot) :
    (∃ w, p.NodeAt (a.analyze p).2.scopes w (role, e)) ∧
      ∀ w, p.NodeAt (a.analyze p).2.scopes w (role, e) →
        w.scopes.NamesVar slot ∧
          (slot.isLValue = true ∨ (∃ line op, e = .unary line op slot) ∧
            ∃ t, Typing.typeOf w.scopes slot = .ok t ∧ t.isNumeric = true) := by
  have hkind : e.isBraces = false ∧ e.isLValue = false := by
    cases e with
    | assign | binary | unary => exact ⟨rfl, rfl⟩
    | _ => cases hwritten
  refine ⟨hnode.exists_nodeAt hkind.1 _, fun w hw => ?_⟩
  obtain ⟨-, t, ht⟩ := exists_typeAs_of_nodeAt haccepted hw
  exact Typing.slot_of_written (Typing.typeOf_of_typeAs hkind.2 ht) hwritten

/-- A method that adds to an element of an array while stepping through it. -/
def accumulating : MethodDecl where
  name := "f"
  returnType := .simple "void"
  params := [⟨"xs", .mk "int" [] 1, 1⟩, ⟨"i", .simple "int", 1⟩]
  body := .mk 1 [.expr (.binary 1 (.assign .add)
    (.index 1 (.var 1 "xs") (.unary 1 .postInc (.var 1 "i"))) (.literal 1 ⟨.int 1, "1"⟩))]
  isStatic := true
  line := 1

/-- The class of this method. -/
def accumulated : Program :=
  ⟨[⟨"A", [.method accumulating], 1⟩], 1⟩

/-- The step is one of a variable. -/
theorem slot_of_write_accumulated :
    (({} : Analyzer).analyze accumulated).1 = [] ∧
      accumulated.HasNode (.value, .unary 1 .postInc (.var 1 "i")) ∧
      ∃ w symbol, accumulated.NodeAt (({} : Analyzer).analyze accumulated).2.scopes w
        (.value, .unary 1 .postInc (.var 1 "i")) ∧
        w.scopes.resolve "i" = some symbol ∧ symbol.isVar = true := by
  have haccepted : (({} : Analyzer).analyze accumulated).1 = [] := by decide +kernel
  have hnode : accumulated.HasNode (.value, .unary 1 .postInc (.var 1 "i")) :=
    ⟨_, .inr ⟨_, ⟨accumulating, .head _, _, .head _, .refl⟩, .head _⟩,
      .tail _ (.tail _ (.tail _ (.head _)))⟩
  obtain ⟨⟨w, hw⟩, hslot⟩ := slot_of_write {} accumulated haccepted _ _ _ hnode rfl
  obtain ⟨symbol, hsymbol⟩ := (hslot w hw).1 1 "i" rfl
  exact ⟨haccepted, hnode, w, symbol, hw, hsymbol⟩

/-- A method that steps a literal and a sum. -/
def stepping : MethodDecl where
  name := "g"
  returnType := .simple "void"
  params := []
  body := .mk 1 [.expr (.unary 1 .postInc (.literal 1 ⟨.int 5, "5"⟩)),
    .expr (.unary 1 .preDec (.binary 1 (.arith .add) (.literal 1 ⟨.int 1, "1"⟩)
      (.literal 1 ⟨.int 2, "2"⟩)))]
  isStatic := true
  line := 1

/-- The class of this method. -/
def stepped : Program :=
  ⟨[⟨"A", [.method stepping], 1⟩], 1⟩

/-- **Steps of what is no slot.** The program is accepted, although its statements write to a
literal and to a sum. -/
theorem exists_write_without_slot :
    (({} : Analyzer).analyze stepped).1 = [] ∧
      ∀ s ∈ stepping.body.stmts, ∃ e slot, s = .expr e ∧ stepped.HasNode (.value, e) ∧
        e.written? = some slot ∧ slot.isLValue = false := by
  have hnode : ∀ e, .expr e ∈ stepping.body.stmts → stepped.HasNode (.value, e) :=
    fun e he => ⟨e, .inr ⟨_, ⟨stepping, .head _, _, he, .refl⟩, .head _⟩, .head _⟩
  refine ⟨by decide +kernel, List.forall_mem_cons.2 ⟨?_, List.forall_mem_singleton.2 ?_⟩⟩
  · exact ⟨_, _, rfl, hnode _ (.head _), rfl, rfl⟩
  · exact ⟨_, _, rfl, hnode _ (.tail _ (.head _)), rfl, rfl⟩

end Program

end ClassLang
