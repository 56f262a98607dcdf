import ClassLang.Analysis.Typing
import Mathlib.Data.List.Basic

set_option autoImplicit false

/-!
# The parts of an expression have types

The type of an expression is found from the types of its parts. So when it has one, all of them have
types too: those that stand for values, and those that an assignment writes to.

## Main definitions

* `ClassLang.Role` — what an expression is used for.
* `ClassLang.Typing.typeAs` — the type of an expression in a role.
* `ClassLang.Expr.parts` — the parts of an expression, each with its role.

## Main results

* `ClassLang.Typing.exists_typeAs_parts` — the parts of an expression with a type have types.
* `ClassLang.Typing.exists_of_typeAs_field` — what a field with a type is found to be.
-/

namespace ClassLang

/-- What an expression is used for: its value, or the slot that an assignment writes to. -/
inductive Role where
  | value
  | target
  deriving DecidableEq

namespace Expr

mutual

/-- The parts of an expression, all the way down, each with its role. -/
def parts : Expr → List (Role × Expr)
  | .literal _ _ | .var _ _ | .newObject _ _ _ => []
  | .binary _ _ left right => ((.value, left) :: parts left) ++ ((.value, right) :: parts right)
  | .unary _ _ operand => (.value, operand) :: parts operand
  | .call _ _ args => partsOfAll args
  | .methodCall _ receiver _ args => ((.value, receiver) :: parts receiver) ++ partsOfAll args
  | .index _ array place => ((.value, array) :: parts array) ++ ((.value, place) :: parts place)
  | .field _ object _ => (.value, object) :: parts object
  | .newArray _ _ size _ => (.value, size) :: parts size
  | .assign _ target value =>
    ((.target, target) :: parts target) ++ ((.value, value) :: parts value)
  | .arrayInit _ elements => partsOfAll elements

/-- Several expressions with their parts. -/
def partsOfAll : List Expr → List (Role × Expr)
  | [] => []
  | e :: es => ((.value, e) :: parts e) ++ partsOfAll es

end

end Expr

namespace Typing

/-- The type of an expression in a role. -/
def typeAs (s : Scopes) : Role → Expr → Typed Ty
  | .value, e => typeOf s e
  | .target, e => targetType s e

/-! ## Results of several steps -/

lemma bind_eq_ok {α β : Type} {x : Typed α} {f : α → Typed β} {b : β} :
    (x >>= f) = .ok b ↔ ∃ a, x = .ok a ∧ f a = .ok b := by
  cases x with
  | error e => exact iff_of_false nofun (by simp)
  | ok a =>
    refine ⟨fun h => ⟨a, rfl, h⟩, ?_⟩
    rintro ⟨_, ⟨⟩, h⟩
    exact h

lemma ensure_eq_ok {condition : Bool} {line : Nat} {cause : SemanticError.Cause} {u : Unit} :
    ensure condition line cause = .ok u ↔ condition = true := by
  cases condition with
  | false => exact iff_of_false nofun Bool.false_ne_true
  | true => exact iff_of_true rfl rfl

/-! ## Lists of expressions -/

variable {s : Scopes}

/-- Expressions all of which have types. -/
abbrev AllTyped (s : Scopes) (es : List Expr) : Prop :=
  ∀ e ∈ es, ∃ t, typeOf s e = .ok t

lemma allTyped_of_typesOf {es : List Expr} {types : List (Nat × Ty)}
    (h : typesOf s es = .ok types) : AllTyped s es := by
  induction es generalizing types with
  | nil => exact List.forall_mem_nil _
  | cons e es ih =>
    rw [typesOf, bind_eq_ok] at h
    obtain ⟨t, he, h⟩ := h
    obtain ⟨_, hes, -⟩ := bind_eq_ok.1 h
    exact List.forall_mem_cons.2 ⟨⟨t, he⟩, ih hes⟩

/-- Arguments that are checked, one for each parameter, have types. -/
lemma allTyped_of_checkArguments {params : List Ty} {es : List Expr} {u : Unit}
    (hlength : params.length = es.length) (h : checkArguments s params es = .ok u) :
    AllTyped s es := by
  induction es generalizing params with
  | nil => exact List.forall_mem_nil _
  | cons e es ih =>
    cases params with
    | nil => cases hlength
    | cons expected params =>
      rw [checkArguments, bind_eq_ok] at h
      obtain ⟨t, he, h⟩ := h
      obtain ⟨_, -, hes⟩ := bind_eq_ok.1 h
      exact List.forall_mem_cons.2 ⟨⟨t, he⟩, ih (Nat.succ.inj hlength) hes⟩

/-- The further elements of an array fit the first. -/
lemma checkAlike_eq_ok {line : Nat} {expected : Ty} {es : List Expr} {u : Unit} :
    checkAlike s line expected es = .ok u ↔
      ∀ e ∈ es, ∃ t, typeOf s e = .ok t ∧ t.isCompatibleWith expected = true := by
  induction es with
  | nil => exact iff_of_true rfl (List.forall_mem_nil _)
  | cons e es ih =>
    simp only [checkAlike, bind_eq_ok, ensure_eq_ok, List.forall_mem_cons, ← ih, exists_const,
      ← and_assoc, exists_and_right]

/-- The elements of an array fit what the array is for. -/
lemma checkElements_eq_ok {expected : Ty} {es : List Expr} {u : Unit} :
    checkElements s expected es = .ok u ↔
      ∀ e ∈ es, ∃ t, typeOf s e = .ok t ∧
        (adopt e expected t).isCompatibleWith expected = true := by
  induction es with
  | nil => exact iff_of_true rfl (List.forall_mem_nil _)
  | cons e es ih =>
    simp only [checkElements, typeExpecting, bind_eq_ok, ensure_eq_ok, Except.ok.injEq,
      List.forall_mem_cons, ← ih, exists_const, ← and_assoc, exists_and_right,
      exists_exists_and_eq_and]

/-! ## Expressions and their parts -/

/-- Parts all of which have types in their roles. -/
abbrev PartsTyped (s : Scopes) (parts : List (Role × Expr)) : Prop :=
  ∀ part ∈ parts, ∃ t, typeAs s part.1 part.2 = .ok t

/-- An expression with a type, and its parts. -/
lemma partsTyped_cons {role : Role} {e : Expr} {t : Ty} (he : typeAs s role e = .ok t)
    (hparts : PartsTyped s e.parts) : PartsTyped s ((role, e) :: e.parts) :=
  List.forall_mem_cons.2 ⟨⟨t, he⟩, hparts⟩

mutual

/-- The parts of an expression whose value has a type have types. -/
theorem partsTyped_of_typeOf : (e : Expr) → ∀ {t : Ty}, typeOf s e = .ok t → PartsTyped s e.parts
  | .literal _ _, _, _ | .var _ _, _, _ | .newObject _ _ _, _, _ => List.forall_mem_nil _
  | .binary _ _ left right, _, h => by
    obtain ⟨_, hleft, h⟩ := bind_eq_ok.1 h
    obtain ⟨_, hright, -⟩ := bind_eq_ok.1 h
    exact List.forall_mem_append.2
      ⟨partsTyped_cons hleft (partsTyped_of_typeOf left hleft),
        partsTyped_cons hright (partsTyped_of_typeOf right hright)⟩
  | .unary _ _ operand, _, h => by
    obtain ⟨_, hoperand, -⟩ := bind_eq_ok.1 h
    exact partsTyped_cons hoperand (partsTyped_of_typeOf operand hoperand)
  | .call _ _ args, _, h => by
    obtain ⟨_, hargs, -⟩ := bind_eq_ok.1 h
    exact partsTyped_partsOfAll args (allTyped_of_typesOf hargs)
  | .methodCall _ receiver name args, _, h => by
    obtain ⟨r, hreceiver, h⟩ := bind_eq_ok.1 h
    refine List.forall_mem_append.2
      ⟨partsTyped_cons hreceiver (partsTyped_of_typeOf receiver hreceiver),
        partsTyped_partsOfAll args ?_⟩
    by_cases hprint : isPrint r name = true
    · rw [if_pos hprint] at h
      obtain ⟨_, -, h⟩ := bind_eq_ok.1 h
      obtain ⟨_, hargs, -⟩ := bind_eq_ok.1 h
      exact allTyped_of_typesOf hargs
    · rw [if_neg hprint] at h
      obtain ⟨_, -, h⟩ := bind_eq_ok.1 h
      obtain ⟨_, hlength, h⟩ := bind_eq_ok.1 h
      obtain ⟨_, hargs, -⟩ := bind_eq_ok.1 h
      exact allTyped_of_checkArguments (of_decide_eq_true (ensure_eq_ok.1 hlength)) hargs
  | .index _ array place, _, h => by
    obtain ⟨_, harray, h⟩ := bind_eq_ok.1 h
    obtain ⟨_, -, h⟩ := bind_eq_ok.1 h
    obtain ⟨_, hplace, -⟩ := bind_eq_ok.1 h
    exact List.forall_mem_append.2
      ⟨partsTyped_cons harray (partsTyped_of_typeOf array harray),
        partsTyped_cons hplace (partsTyped_of_typeOf place hplace)⟩
  | .field _ object _, _, h => by
    obtain ⟨_, hobject, -⟩ := bind_eq_ok.1 h
    exact partsTyped_cons hobject (partsTyped_of_typeOf object hobject)
  | .newArray _ _ size _, _, h => by
    obtain ⟨_, hsize, -⟩ := bind_eq_ok.1 h
    exact partsTyped_cons hsize (partsTyped_of_typeOf size hsize)
  | .assign _ target value, _, h => by
    obtain ⟨_, htarget, h⟩ := bind_eq_ok.1 h
    obtain ⟨_, hvalue, -⟩ := bind_eq_ok.1 h
    exact List.forall_mem_append.2
      ⟨partsTyped_cons htarget (partsTyped_of_targetType target htarget),
        partsTyped_cons hvalue (partsTyped_of_typeOf value hvalue)⟩
  | .arrayInit _ elements, _, h => by
    refine partsTyped_partsOfAll elements ?_
    cases elements with
    | nil => exact List.forall_mem_nil _
    | cons first rest =>
      obtain ⟨t, hfirst, h⟩ := bind_eq_ok.1 h
      obtain ⟨_, hrest, -⟩ := bind_eq_ok.1 h
      exact List.forall_mem_cons.2 ⟨⟨t, hfirst⟩, fun e he => (checkAlike_eq_ok.1 hrest e he).imp fun _ => And.left⟩

/-- The parts of an expression that can be assigned to have types. -/
theorem partsTyped_of_targetType : (e : Expr) → ∀ {t : Ty}, targetType s e = .ok t →
    PartsTyped s e.parts
  | .var _ _, _, _ => List.forall_mem_nil _
  | .index _ array place, _, h => by
    obtain ⟨_, harray, h⟩ := bind_eq_ok.1 h
    obtain ⟨_, hplace, -⟩ := bind_eq_ok.1 h
    exact List.forall_mem_append.2
      ⟨partsTyped_cons harray (partsTyped_of_typeOf array harray),
        partsTyped_cons hplace (partsTyped_of_typeOf place hplace)⟩
  | .field _ object _, _, h => by
    obtain ⟨_, hobject, -⟩ := bind_eq_ok.1 h
    exact partsTyped_cons hobject (partsTyped_of_typeOf object hobject)

/-- Expressions with types have parts with types. -/
theorem partsTyped_partsOfAll : (es : List Expr) → AllTyped s es → PartsTyped s (Expr.partsOfAll es)
  | [], _ => List.forall_mem_nil _
  | e :: es, h => by
    obtain ⟨t, he⟩ := h e List.mem_cons_self
    exact List.forall_mem_append.2
      ⟨partsTyped_cons he (partsTyped_of_typeOf e he),
        partsTyped_partsOfAll es fun e' he' => h e' (List.mem_cons_of_mem e he')⟩

end

/-- **The parts of an expression with a type have types**, each in its role. -/
theorem exists_typeAs_parts {role : Role} {e : Expr} {t : Ty} (h : typeAs s role e = .ok t) :
    PartsTyped s ((role, e) :: e.parts) := by
  refine partsTyped_cons h ?_
  cases role with
  | value => exact partsTyped_of_typeOf e h
  | target => exact partsTyped_of_targetType e h

/-! ## What a type in a role says -/

/-- Only a slot can be assigned to, so that anything else is there for its value. -/
lemma typeOf_of_typeAs {role : Role} {e : Expr} {t : Ty} (he : e.isLValue = false)
    (h : typeAs s role e = .ok t) : typeOf s e = .ok t := by
  cases role with
  | value => exact h
  | target =>
    cases e with
    | var | index | field => cases he
    | _ => cases h

/-- The type of a member, from the class in which it is found. -/
lemma exists_of_memberType {line objectLine : Nat} {object t : Ty} {name : String}
    (h : memberType s line objectLine object name = .ok t) :
    ∃ className c symbol, object.isClass = true ∧ object.className? = some className ∧
      s.class? className = some c ∧ c.members.get? name = some symbol ∧ symbol.type = t := by
  unfold memberType at h
  split at h
  case h_1 => cases h
  case h_2 className hname =>
    obtain ⟨_, hclass, h⟩ := bind_eq_ok.1 h
    split at h
    case h_1 => cases h
    case h_2 c hc =>
      split at h
      case h_1 => cases h
      case h_2 symbol hsymbol =>
        exact ⟨className, c, symbol, ensure_eq_ok.1 hclass, hname, hc, hsymbol, Except.ok.inj h⟩

/-- In both roles a field is a member of the class of its object, but as a value it can also be the
length of an array. -/
lemma exists_of_typeAs_field {role : Role} {line : Nat} {object : Expr} {name : String} {t : Ty}
    (h : typeAs s role (.field line object name) = .ok t) :
    ∃ o, typeOf s object = .ok o ∧
      (role = .value ∧ o.isArray = true ∧ name = "length" ∧ t = .int ∨
        ∃ className c symbol, o.isClass = true ∧ o.className? = some className ∧
          s.class? className = some c ∧ c.members.get? name = some symbol ∧ symbol.type = t) := by
  cases role with
  | target =>
    obtain ⟨o, ho, h⟩ := bind_eq_ok.1 h
    exact ⟨o, ho, .inr (exists_of_memberType h)⟩
  | value =>
    obtain ⟨o, ho, h⟩ := bind_eq_ok.1 h
    refine ⟨o, ho, ?_⟩
    unfold fieldType at h
    split at h
    case isTrue hlength =>
      obtain ⟨harray, hname⟩ := Bool.and_eq_true_iff.1 hlength
      exact .inl ⟨rfl, harray, of_decide_eq_true hname, (Except.ok.inj h).symm⟩
    case isFalse => exact .inr (exists_of_memberType h)

end Typing

end ClassLang
