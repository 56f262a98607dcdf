import ClassLang.Proofs.Analysis.ClassTable
import ClassLang.Target.Env

set_option autoImplicit false

/-!
# Rules for types in the check and in the generator

The check has rules for the types of operations and of the members of built-in classes, and the
generator has rules of its own, for types as they are written and as far as they are known. Where
both have a type, the written one stands for the other.

## Main definitions

* `ClassLang.Target.OperandsRead` — the types of two operands, as far as they are known.

## Main results

* `ClassLang.Target.reads_arithType` — both have the same rule for arithmetic.
* `ClassLang.Target.reads_receiverCallType` — both know the same methods of built-in classes.
-/

namespace ClassLang.Target

/-! ## Primitive types -/

/-- A name stands for a primitive type exactly if it is its name, or that of the class that wraps
it. -/
lemma primitive?_eq_some_iff {name : String} {kind : Primitive} :
    Builtin.primitive? name = some (.primitive kind) ↔ unboxed name = kind.name := by
  constructor
  · intro h
    have hall : ∀ entry ∈ Builtin.primitives ++ Builtin.boxed,
        entry.2 = .primitive kind → unboxed entry.1 = kind.name := by
      cases kind <;> decide
    rw [Builtin.primitive?, List.lookup_eq_some_iff] at h
    obtain ⟨before, after, hsplit, -⟩ := h
    exact hall (name, .primitive kind) (hsplit ▸ by simp) rfl
  · intro h
    unfold unboxed at h
    split at h
    case h_6 =>
      subst h
      cases kind <;> rfl
    all_goals
      cases kind <;> first | rfl | simp [Primitive.name] at h

/-- The name of a primitive type stands for it. -/
lemma reads_simple (s : Scopes) (kind : Primitive) :
    s.Reads (.simple kind.name) (.primitive kind) :=
  Scopes.reads_iff.2 ⟨_, .primitive (by cases kind <;> rfl), rfl⟩

/-- A written type stands for a primitive type exactly if its name does, without brackets. -/
lemma scalarName_eq_some_iff {s : Scopes} {type : TypeExpr} {t : Ty} (h : s.Reads type t)
    {kind : Primitive} : Env.scalarName type = some kind.name ↔ t = .primitive kind := by
  obtain ⟨name, args, dimensions⟩ := type
  obtain ⟨element, helement, rfl⟩ := Scopes.reads_iff.1 h
  cases dimensions with
  | succ dimensions =>
    have hnone : Env.scalarName (.mk name args (dimensions + 1)) = none := rfl
    rw [hnone]
    exact iff_of_false nofun nofun
  | zero =>
    have hscalar : Env.scalarName (.mk name args 0) = some (unboxed name) := rfl
    rw [hscalar, Option.some.injEq, ← primitive?_eq_some_iff]
    change _ ↔ element = .primitive kind
    cases helement with
    | primitive hname => rw [hname, Option.some.injEq]
    | plain hname | generic hname =>
      rw [hname]
      exact iff_of_false nofun nofun

/-! ## Arithmetic -/

/-- The types that are known to be numbers, and characters. -/
lemma exists_primitive_of_rank? {name : String} {rank : Nat} (h : Env.rank? name = some rank) :
    ∃ kind : Primitive, name = kind.name ∧ Ty.isAssignableTo .string (.primitive kind) = false := by
  unfold Env.rank? at h
  split at h
  · exact ⟨.char, rfl, rfl⟩
  · exact ⟨.int, rfl, rfl⟩
  · exact ⟨.float, rfl, rfl⟩
  · exact ⟨.double, rfl, rfl⟩
  · cases h

/-- The types of two operands, as far as they are known. An operand that is not known is not wider
than the other one, if that is a number. -/
structure OperandsRead (s : Scopes) (left right : Option TypeExpr) (t u : Ty) : Prop where
  readsLeft : ∀ type, left = some type → s.Reads type t
  readsRight : ∀ type, right = some type → s.Reads type u
  leftFits : left = none → (right >>= Env.scalarName).bind Env.rank? ≠ none →
    t.isAssignableTo u = true
  rightFits : right = none → (left >>= Env.scalarName).bind Env.rank? ≠ none →
    u.isAssignableTo t = true

section Arithmetic

variable {s : Scopes} {left right known : Option TypeExpr} {t u v : Ty} {type : TypeExpr}

/-- A known string makes a string. -/
lemma arithType_of_string (h : left >>= Env.scalarName = some "String" ∨
    right >>= Env.scalarName = some "String") :
    Env.arithType left right = some (.simple "String") := by
  unfold Env.arithType
  rcases h with h | h
  · simp [h]
  · cases left >>= Env.scalarName <;> simp [h]

/-- Without a known string or number, nothing is known. -/
lemma arithType_of_rank?_eq_none (hleft : left >>= Env.scalarName ≠ some "String")
    (hright : right >>= Env.scalarName ≠ some "String")
    (hleft' : (left >>= Env.scalarName).bind Env.rank? = none)
    (hright' : (right >>= Env.scalarName).bind Env.rank? = none) :
    Env.arithType left right = none := by
  unfold Env.arithType
  generalize left >>= Env.scalarName = a at hleft hleft' ⊢
  generalize right >>= Env.scalarName = b at hright hright' ⊢
  cases a <;> cases b <;> simp_all [Ne.symm]

/-- Next to a string of unknown type no number is known. -/
lemma rank?_eq_none_of_fits (hreads : ∀ type, known = some type → s.Reads type u)
    (hfits : (known >>= Env.scalarName).bind Env.rank? ≠ none →
      Ty.isAssignableTo .string u = true) :
    (known >>= Env.scalarName).bind Env.rank? = none := by
  by_contra hrank
  obtain ⟨rank, hrank'⟩ := Option.ne_none_iff_exists'.1 hrank
  obtain ⟨name, hname, hrank'⟩ := Option.bind_eq_some_iff.1 hrank'
  obtain ⟨type, htype, hscalar⟩ := Option.bind_eq_some_iff.1 hname
  obtain ⟨kind, rfl, hkind⟩ := exists_primitive_of_rank? hrank'
  obtain rfl := (scalarName_eq_some_iff (hreads type htype)).1 hscalar
  rw [hfits hrank] at hkind
  cases hkind

/-- An operand of a primitive type is not known, or its name is. -/
lemma eq_none_or_scalarName {kind : Primitive}
    (hreads : ∀ type, known = some type → s.Reads type (.primitive kind)) :
    known = none ∨ known >>= Env.scalarName = some kind.name := by
  cases known with
  | none => exact .inl rfl
  | some type => exact .inr ((scalarName_eq_some_iff (hreads type rfl)).2 rfl)

/-- Of two known numbers the wider one is found. -/
lemma exists_arithType_of_numbers {k k' : Primitive} (hk : (Ty.primitive k).isNumeric = true)
    (hleft : left >>= Env.scalarName = some k.name)
    (hright : right >>= Env.scalarName = some k'.name) :
    ∃ kind : Primitive, Env.arithType left right = some (.simple kind.name) ∧
      Typing.wider (.primitive k) (.primitive k') = .primitive kind := by
  unfold Env.arithType
  rw [hleft, hright]
  cases k <;> cases k' <;> first | exact ⟨_, rfl, rfl⟩ | exact absurd hk (by decide)

/-- A number that is known alone is found as it is. -/
lemma arithType_of_number {k : Primitive} (hk : (Ty.primitive k).isNumeric = true)
    (hknown : known >>= Env.scalarName = some k.name) :
    Env.arithType known none = some (.simple k.name) ∧
      Env.arithType none known = some (.simple k.name) := by
  unfold Env.arithType
  rw [hknown]
  cases k <;> first | exact ⟨rfl, rfl⟩ | exact absurd hk (by decide)

/-- A number that fits another one is not the wider one. -/
lemma wider_of_isAssignableTo {k k' : Primitive}
    (h : Ty.isAssignableTo (.primitive k') (.primitive k) = true) :
    Typing.wider (.primitive k) (.primitive k') = .primitive k := by
  cases k <;> cases k' <;> first | rfl | exact absurd h (by decide)

lemma rank?_ne_none {k : Primitive} (hk : (Ty.primitive k).isNumeric = true) :
    Env.rank? k.name ≠ none := by
  cases k <;> first | decide | exact absurd hk (by decide)

lemma exists_primitive_of_isNumeric (h : t.isNumeric = true) : ∃ kind, t = .primitive kind := by
  cases t with
  | primitive kind => exact ⟨kind, rfl⟩
  | _ => cases h

/-- What is joined to a string makes a string. If the type of the string is not known, then no number
is known next to it, and nothing is found. -/
lemma reads_arithType_of_string (h : OperandsRead s left right t u)
    (hstring : t = .string ∨ u = .string) (htype : Env.arithType left right = some type) :
    s.Reads type .string := by
  by_cases hknown : left >>= Env.scalarName = some "String" ∨
      right >>= Env.scalarName = some "String"
  · rw [arithType_of_string hknown] at htype
    cases htype
    exact reads_simple s .string
  · obtain ⟨hleft, hright⟩ := not_or.1 hknown
    have hranks : (left >>= Env.scalarName).bind Env.rank? = none ∧
        (right >>= Env.scalarName).bind Env.rank? = none := by
      rcases hstring with rfl | rfl
      · obtain rfl := (eq_none_or_scalarName h.readsLeft).resolve_right hleft
        exact ⟨rfl, rank?_eq_none_of_fits h.readsRight (h.leftFits rfl)⟩
      · obtain rfl := (eq_none_or_scalarName h.readsRight).resolve_right hright
        exact ⟨rank?_eq_none_of_fits h.readsLeft (h.rightFits rfl), rfl⟩
    rw [arithType_of_rank?_eq_none hleft hright hranks.1 hranks.2] at htype
    cases htype

/-- Two numbers give the wider one. If only one of them is known, the other one fits it, so that it
is the wider one. -/
lemma reads_arithType_of_numbers {k k' : Primitive}
    (h : OperandsRead s left right (.primitive k) (.primitive k'))
    (hk : (Ty.primitive k).isNumeric = true) (hk' : (Ty.primitive k').isNumeric = true)
    (htype : Env.arithType left right = some type) :
    s.Reads type (Typing.wider (.primitive k) (.primitive k')) := by
  rcases eq_none_or_scalarName h.readsLeft with rfl | hleft <;>
    rcases eq_none_or_scalarName h.readsRight with rfl | hright
  · cases htype
  · have hfits := h.leftFits rfl (by rw [hright]; exact rank?_ne_none hk')
    rw [(arithType_of_number hk' hright).2] at htype
    cases htype
    rw [Typing.wider, if_pos hfits]
    exact reads_simple s k'
  · have hfits := h.rightFits rfl (by rw [hleft]; exact rank?_ne_none hk)
    rw [(arithType_of_number hk hleft).1] at htype
    cases htype
    rw [wider_of_isAssignableTo hfits]
    exact reads_simple s k
  · obtain ⟨kind, harith, hwider⟩ := exists_arithType_of_numbers hk hleft hright
    rw [harith] at htype
    cases htype
    rw [hwider]
    exact reads_simple s kind

/-- **Both have the same rule for arithmetic.** What is found for the known types of operands stands
for the type of the operation. -/
theorem reads_arithType (h : OperandsRead s left right t u) {op : Arith}
    (hv : Typing.arithType? op t u = some v) (htype : Env.arithType left right = some type) :
    s.Reads type v := by
  unfold Typing.arithType? at hv
  split at hv
  case isTrue hjoins =>
    cases hv
    have hstring : t = .string ∨ u = .string := by simpa using (Bool.and_eq_true_iff.1 hjoins).2
    exact reads_arithType_of_string h hstring htype
  case isFalse =>
    split at hv
    case isFalse => cases hv
    case isTrue hboth =>
      cases hv
      obtain ⟨hnumeric, hnumeric'⟩ := Bool.and_eq_true_iff.1 hboth
      obtain ⟨k, rfl⟩ := exists_primitive_of_isNumeric hnumeric
      obtain ⟨k', rfl⟩ := exists_primitive_of_isNumeric hnumeric'
      exact reads_arithType_of_numbers h hnumeric hnumeric' htype

end Arithmetic

/-! ## Members of built-in classes -/

/-- The types of the members of built-in classes that are told by their names. -/
def builtinType? (member : String) : Option Primitive :=
  match member with
  | "size" | "length" => some .int
  | "equals" | "isEmpty" | "containsKey" | "add" => some .boolean
  | "charAt" => some .char
  | _ => none

/-- Methods that are taken for those of built-in classes, whatever the receiver. -/
def guessedMethods : List String := ["size", "equals", "isEmpty", "containsKey", "add"]

section Builtin

variable {g : Table} {p : Program} {s : Scopes}

/-- The members of built-in classes have the types that are told by their names. -/
lemma type_of_builtin (hd : g.Describes p) (hs : s.global = g) {name member : String}
    {c : ClassInfo} {symbol : Symbol} {kind : Primitive} (hname : name ∉ p.classNames)
    (hc : s.class? name = some c) (hsymbol : c.members.get? member = some symbol)
    (hkind : builtinType? member = some kind) : symbol.type = .primitive kind := by
  have hall : ∀ builtin ∈ Builtin.globals, ∀ symbol ∈ builtin.class?.elim [] ClassInfo.members,
      (builtinType? symbol.name).all (fun kind => symbol.type = .primitive kind) = true := by
    decide
  rw [hd.class?_of_notMem hs hname] at hc
  obtain ⟨builtin, hbuiltin, hc⟩ := Option.bind_eq_some_iff.1 hc
  obtain ⟨hmem, rfl⟩ := Table.mem_of_get? hsymbol
  have htype := hall builtin (Table.mem_of_get? hbuiltin).1 symbol (by rw [hc]; exact hmem)
  rw [hkind] at htype
  exact of_decide_eq_true htype

lemma eq_of_unboxed_eq {name : String} {other : String} (h : unboxed name = other)
    (hother : other ∉ ["int", "double", "float", "char", "boolean"]) : name = other := by
  unfold unboxed at h
  split at h
  case h_6 => exact h
  all_goals
    subst h
    exact absurd (by decide) hother

/-- What is known of the result of a method: it is told by the name of the method, which may be that
of a string only, or it is a type argument of a container. -/
lemma receiverCallType_cases {receiver : TypeExpr} {method : String} {type : TypeExpr}
    (h : Env.receiverCallType receiver method = some type) : receiver.dimensions = 0 ∧
      ((∃ kind, builtinType? method = some kind ∧ type = .simple kind.name ∧
          (method ∈ guessedMethods ∨ receiver.name = "String")) ∨
        (receiver.name = "ArrayList" ∧ (method = "set" ∨ method = "get") ∧
          receiver.args[0]? = some type) ∨
        (receiver.name = "HashMap" ∧ method = "get" ∧ receiver.args[1]? = some type)) := by
  obtain ⟨name, hname, h⟩ := Option.bind_eq_some_iff.1 h
  unfold Env.scalarName at hname
  split at hname
  case isFalse => cases hname
  case isTrue hdimensions =>
    have hnamed : ∀ {other : String}, name = other →
        other ∉ ["int", "double", "float", "char", "boolean"] → receiver.name = other := by
      rintro _ rfl
      exact eq_of_unboxed_eq (Option.some.inj hname)
    refine ⟨hdimensions, ?_⟩
    split at h
    case h_1 => cases h; exact .inl ⟨.int, rfl, rfl, .inl (by decide)⟩
    case h_2 | h_3 | h_4 | h_5 => cases h; exact .inl ⟨.boolean, rfl, rfl, .inl (by decide)⟩
    case h_6 =>
      split at h
      case isFalse => cases h
      case isTrue hstring =>
        cases h
        exact .inl ⟨.int, rfl, rfl, .inr (hnamed hstring (by decide))⟩
    case h_7 =>
      split at h
      case isFalse => cases h
      case isTrue hstring =>
        cases h
        exact .inl ⟨.char, rfl, rfl, .inr (hnamed hstring (by decide))⟩
    case h_8 =>
      split at h
      case isFalse => cases h
      case isTrue hlist =>
        exact .inr (.inl ⟨hnamed hlist (by decide), .inl rfl, h⟩)
    case h_9 =>
      split at h
      case isTrue hlist =>
        exact .inr (.inl ⟨hnamed hlist (by decide), .inr rfl, h⟩)
      case isFalse =>
        split at h
        case isFalse => cases h
        case isTrue hmap =>
          exact .inr (.inr ⟨hnamed hmap (by decide), rfl, h⟩)
    case h_10 => cases h

/-- The result of a method, from the class in which it is found. -/
lemma exists_of_methodSignature {line : Nat} {receiver : Ty} {method : String}
    {signature : Typing.Signature}
    (h : Typing.methodSignature s line receiver method = .ok signature) :
    ∃ name c symbol, receiver.className? = some name ∧ s.class? name = some c ∧
      c.members.get? method = some symbol ∧
        signature.result = symbol.type.substitute (Ty.bindings c.typeParams receiver) := by
  unfold Typing.methodSignature at h
  split at h
  case h_1 => cases h
  case h_2 c hc =>
    obtain ⟨name, hname, hc⟩ := Option.bind_eq_some_iff.1 hc
    split at h
    case h_1 hmember =>
      cases h
      exact ⟨name, c, _, hname, hc, hmember, rfl⟩
    case h_2 => cases h

/-- The type that a container stands for, with the class in which its members are found. -/
lemma reads_container (hd : g.Describes p) (hs : s.global = g) {name : String}
    {args : List TypeExpr} {t : Ty} {container : ClassInfo} (h : s.Names name args t)
    (hname : Builtin.primitive? name = none)
    (hcontainer : Builtin.globals.get? name >>= Symbol.class? = some container)
    (hgeneric : container.isGeneric = true) :
    s.class? name = some container ∧ ∃ ts, t = .generic (.named name) ts ∧ s.ReadsAll args ts := by
  have hbuiltin : Builtin.globals.get? name ≠ none := by
    intro hnone
    rw [hnone] at hcontainer
    cases hcontainer
  have hclass : s.class? name = some container := by
    rw [hd.class?_of_notMem hs (hd.notMem_of_builtin hbuiltin)]
    exact hcontainer
  refine ⟨hclass, ?_⟩
  cases h with
  | primitive h =>
    rw [hname] at h
    cases h
  | plain _ hc hplain =>
    obtain rfl := Option.some.inj (hclass.symm.trans hc)
    rw [hgeneric] at hplain
    cases hplain
  | @generic _ ts _ _ _ hargs => exact ⟨ts, rfl, hargs⟩

/-- **Both know the same methods of built-in classes.** -/
theorem reads_receiverCallType (hd : g.Describes p) (hs : s.global = g) {receiver type : TypeExpr}
    {t : Ty} {line : Nat} {method : String} {signature : Typing.Signature}
    (hreceiver : s.Reads receiver t)
    (hsignature : Typing.methodSignature s line t method = .ok signature)
    (hbuiltin : method ∈ guessedMethods → ∀ name, t.className? = some name → name ∉ p.classNames)
    (htype : Env.receiverCallType receiver method = some type) :
    s.Reads type signature.result := by
  obtain ⟨name, c, symbol, hname, hc, hsymbol, hresult⟩ := exists_of_methodSignature hsignature
  obtain ⟨receiverName, args, dimensions⟩ := receiver
  obtain ⟨rfl, hcases⟩ := receiverCallType_cases htype
  obtain ⟨_, helement, rfl⟩ := Scopes.reads_iff.1 hreceiver
  rcases hcases with ⟨kind, hkind, rfl, hguessed⟩ | ⟨rfl, hmethod, harg⟩ | ⟨rfl, rfl, harg⟩
  · -- the type is told by the name of the method
    have hother : name ∉ p.classNames := by
      rcases hguessed with hguessed | rfl
      · exact hbuiltin hguessed name hname
      · cases helement with
        | @primitive t h =>
          obtain rfl : t = .string := Option.some.inj (h.symm.trans rfl)
          cases hname
          exact hd.notMem_of_builtin (by decide)
        | plain h | generic h => cases h
    rw [hresult, type_of_builtin hd hs hother hc hsymbol hkind]
    exact reads_simple s kind
  · obtain ⟨hclass, ts, rfl, hargs⟩ := reads_container hd hs helement rfl rfl rfl
    cases hname
    obtain rfl := Option.some.inj (hclass.symm.trans hc)
    obtain ⟨u, hu, hreads⟩ := hargs.getElem? harg
    obtain ⟨rest, rfl⟩ : ∃ rest, ts = u :: rest := by
      cases ts with
      | nil => cases hu
      | cons _ rest => cases hu; exact ⟨rest, rfl⟩
    have hparam : symbol.type = .param "T" := by
      rcases hmethod with rfl | rfl <;> cases hsymbol <;> rfl
    rw [hresult, hparam]
    exact hreads
  · obtain ⟨hclass, ts, rfl, hargs⟩ := reads_container hd hs helement rfl rfl rfl
    cases hname
    obtain rfl := Option.some.inj (hclass.symm.trans hc)
    obtain ⟨u, hu, hreads⟩ := hargs.getElem? harg
    obtain ⟨key, rest, rfl⟩ : ∃ key rest, ts = key :: u :: rest := by
      rcases ts with _ | ⟨key, _ | ⟨_, rest⟩⟩
      · cases hu
      · cases hu
      · cases hu
        exact ⟨key, rest, rfl⟩
    have hparam : symbol.type = .param "V" := by
      cases hsymbol
      rfl
    rw [hresult, hparam]
    exact hreads

end Builtin

end ClassLang.Target
