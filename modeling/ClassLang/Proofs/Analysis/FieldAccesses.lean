import ClassLang.Proofs.Analysis.Nodes
import Mathlib.Data.List.Pairwise

set_option autoImplicit false

/-!
# What field accesses denote

The fields and the methods of a class are bound in one table, in which a field access looks up its
name whatever it is bound to. In an accepted program the members of a class have different names, so
a field access denotes a field of the class unless the class has a method of that name. Then it
denotes the method, and has the type of its result.

## Main definitions

* `ClassLang.Program.methodNames` — the methods that a program can call, with their classes.

## Main results

* `ClassLang.Table.Describes.isVar_iff` — what is bound to a name in a class is a field, unless the
  class has a method of that name.
* `ClassLang.Program.denotes_of_field_access` — what the field accesses of an accepted program find.
-/

namespace ClassLang

/-- The name of a function. -/
def Symbol.functionName? : Symbol → Option String
  | function name _ _ _ => some name
  | var _ _ | classDef _ _ _ | typeParam _ => none

/-- The built-in methods, each with the name of its class. -/
def Builtin.methodNames : List (String × String) :=
  globals.flatMap fun symbol =>
    (symbol.class?.elim [] ClassInfo.members).filterMap fun member =>
      member.functionName?.map fun name => (symbol.name, name)

/-- The methods of the classes of a program and the built-in ones, each with the name of its
class. -/
def Program.methodNames (p : Program) : List (String × String) :=
  Builtin.methodNames ++ p.classes.flatMap fun c => c.methods.map fun d => (c.name, d.name)

/-! ## Members -/

/-- The name of a field is bound to a variable, and that of a method is not. -/
lemma Member.isVar_plan {s : Scopes} {m : Member} {plan : MemberPlan} (h : m.plan s = .ok plan) :
    plan.symbol.isVar = true ↔ ∃ d, m = .field d := by
  refine ⟨(plan_symbol h).2.2.1, ?_⟩
  rintro ⟨d, rfl⟩
  obtain ⟨_, -, ⟨⟩⟩ := Typing.bind_eq_ok.1 h
  rfl

lemma Program.mem_memberItems_method {p : Program} {className name : String} :
    (∃ d, (className, Member.method d) ∈ Check.memberItems p.classes ∧ d.name = name) ↔
      (className, name) ∈ p.classes.flatMap fun c => c.methods.map fun d => (c.name, d.name) := by
  simp only [Check.memberItems, List.mem_flatMap, List.mem_map, ClassDecl.mem_methods,
    Prod.mk.injEq]
  constructor
  · rintro ⟨d, ⟨c, hc, _, hm, rfl, rfl⟩, rfl⟩
    exact ⟨c, hc, d, hm, rfl, rfl⟩
  · rintro ⟨c, hc, d, hd, rfl, rfl⟩
    exact ⟨d, ⟨c, hc, _, hd, rfl, rfl⟩, rfl⟩

/-- Members of one class that have the same name are the same. -/
lemma Table.Describes.eq_of_name_eq {g : Table} {p : Program} (h : g.Describes p)
    {className : String} {m m' : Member} (hm : (className, m) ∈ Check.memberItems p.classes)
    (hm' : (className, m') ∈ Check.memberItems p.classes) (hname : m.name = m'.name) : m = m' := by
  have hsymm : Std.Symm fun item item' : String × Member =>
      item.1 = item'.1 → item.2.name ≠ item'.2.name :=
    ⟨fun _ _ hapart heq => (hapart heq.symm).symm⟩
  by_contra hne
  exact h.distinct.forall hm hm' (by simpa using hne) rfl hname

/-- A class of the program has the methods that it declares, since it is not built in. -/
lemma Table.Describes.mem_methodNames {g : Table} {p : Program} (h : g.Describes p)
    {className name : String} (hclass : className ∈ p.classNames) :
    (className, name) ∈ p.methodNames ↔
      ∃ d, (className, Member.method d) ∈ Check.memberItems p.classes ∧ d.name = name := by
  have hbuiltin : (className, name) ∉ Builtin.methodNames := by
    have hall : ∀ x ∈ Builtin.methodNames, (Builtin.globals.get? x.1).isSome = true := by decide
    intro hmem
    have hsome := hall _ hmem
    rw [h.fresh hclass] at hsome
    cases hsome
  rw [Program.mem_memberItems_method, Program.methodNames, List.mem_append, or_iff_right hbuiltin]

/-- **What is bound to a name in a class is a field**, unless the class has a method of that
name. -/
theorem Table.Describes.isVar_iff {g : Table} {p : Program} {s : Scopes} (h : g.Describes p)
    (hs : s.global = g) {className name : String} {c : ClassInfo} {symbol : Symbol}
    (hc : s.class? className = some c) (hsymbol : c.members.get? name = some symbol) :
    symbol.isVar = true ↔ (className, name) ∉ p.methodNames := by
  by_cases hclass : className ∈ p.classNames
  · -- a name in a class of the program is that of one member only
    obtain ⟨members, hbound, hfrom⟩ := h.declared hclass
    rw [Scopes.class?, hs, hbound] at hc
    obtain rfl := Option.some.inj hc
    obtain ⟨m, hm, plan, hplan, rfl, rfl⟩ := hfrom hsymbol
    rw [Member.isVar_plan hplan, h.mem_methodNames hclass]
    constructor
    · rintro ⟨d, rfl⟩ ⟨d', hd', hname⟩
      cases h.eq_of_name_eq hm hd' hname.symm
    · intro hnone
      cases m with
      | field d => exact ⟨d, rfl⟩
      | method d => exact absurd ⟨d, hm, rfl⟩ hnone
  · have hall : ∀ builtin ∈ Builtin.globals, ∀ symbol ∈ builtin.class?.elim [] ClassInfo.members,
        symbol.isVar = true ↔ (builtin.name, symbol.name) ∉ Builtin.methodNames := by decide
    have hdeclared : (className, name) ∉
        p.classes.flatMap fun c => c.methods.map fun d => (c.name, d.name) := by
      intro hmem
      obtain ⟨d, hd, -⟩ := Program.mem_memberItems_method.2 hmem
      exact hclass (Program.mem_members_of_mem_memberItems hd).1
    rw [h.class?_of_notMem hs hclass] at hc
    obtain ⟨builtin, hbuiltin, hinfo⟩ := Option.bind_eq_some_iff.1 hc
    obtain ⟨hmem, rfl⟩ := Table.mem_of_get? hbuiltin
    obtain ⟨hmem', rfl⟩ := Table.mem_of_get? hsymbol
    rw [Program.methodNames, List.mem_append, or_iff_left hdeclared]
    exact hall builtin hmem symbol (by rwa [hinfo])

/-! ## Field accesses -/

open Target

namespace Program

/-- **What field accesses denote.** Each field access in an accepted program, be it read or assigned
to, stands at a site. The object has a type there, which is that of an array of which the length is
read, or that of a class in which the name is bound: to a variable, unless the class has a method of
that name. -/
theorem denotes_of_field_access (a : Analyzer) (p : Program) (haccepted : (a.analyze p).1 = [])
    (role : Role) (line : Nat) (object : Expr) (name : String)
    (hnode : p.HasNode (role, .field line object name)) :
    (∃ w, p.NodeAt (a.analyze p).2.scopes w (role, .field line object name)) ∧
      ∀ w, p.NodeAt (a.analyze p).2.scopes w (role, .field line object name) →
        ∃ o, Typing.typeOf w.scopes object = .ok o ∧
          (role = .value ∧ o.isArray = true ∧ name = "length" ∨
            ∃ className c symbol, o.isClass = true ∧ o.className? = some className ∧
              w.scopes.class? className = some c ∧ c.members.get? name = some symbol ∧
              (symbol.isVar = true ↔ (className, name) ∉ p.methodNames)) := by
  refine ⟨hnode.exists_nodeAt rfl _, fun w hw => ?_⟩
  obtain ⟨hdescribes, t, ht⟩ := exists_typeAs_of_nodeAt haccepted hw
  obtain ⟨o, ho, hfound⟩ := Typing.exists_of_typeAs_field ht
  refine ⟨o, ho, ?_⟩
  rcases hfound with ⟨hrole, harray, hlength, -⟩ |
    ⟨className, c, symbol, hclass, hclassName, hc, hsymbol, -⟩
  · exact .inl ⟨hrole, harray, hlength⟩
  · exact .inr
      ⟨className, c, symbol, hclass, hclassName, hc, hsymbol, hdescribes.isVar_iff rfl hc hsymbol⟩

/-- A method that assigns the length of one field of an object to another. -/
def sizing : MethodDecl where
  name := "f"
  returnType := .simple "void"
  params := [⟨"a", .simple "A", 1⟩]
  body := .mk 1 [.expr (.assign 1 (.field 1 (.var 1 "a") "n")
    (.field 1 (.field 1 (.var 1 "a") "xs") "length"))]
  isStatic := true
  line := 1

/-- The class of this method and these fields. -/
def sized : Program :=
  ⟨[⟨"A", [.field ⟨"n", .simple "int", none, false, 1⟩,
    .field ⟨"xs", .mk "int" [] 1, none, false, 1⟩, .method sizing], 1⟩], 1⟩

/-- The assignment is to a field. -/
theorem denotes_of_field_access_sized :
    (({} : Analyzer).analyze sized).1 = [] ∧
      sized.HasNode (.target, .field 1 (.var 1 "a") "n") ∧
      ∃ (w : Site) (o : Ty) (className : String) (c : ClassInfo) (symbol : Symbol),
        sized.NodeAt (({} : Analyzer).analyze sized).2.scopes w
          (.target, .field 1 (.var 1 "a") "n") ∧
        Typing.typeOf w.scopes (.var 1 "a") = .ok o ∧ o.className? = some className ∧
        w.scopes.class? className = some c ∧ c.members.get? "n" = some symbol ∧
        symbol.isVar = true := by
  have haccepted : (({} : Analyzer).analyze sized).1 = [] := by decide +kernel
  have hnode : sized.HasNode (.target, .field 1 (.var 1 "a") "n") :=
    ⟨_, .inr ⟨_, ⟨sizing, .head _, _, .head _, .refl⟩, .head _⟩, .tail _ (.head _)⟩
  have hnone : ∀ x ∈ sized.methodNames, x.2 ≠ "n" := by decide
  obtain ⟨⟨w, hw⟩, hfound⟩ := denotes_of_field_access {} sized haccepted .target 1 _ "n" hnode
  obtain ⟨o, ho, ⟨⟨⟩, -⟩ | ⟨className, c, symbol, -, hclassName, hc, hsymbol, hvar⟩⟩ := hfound w hw
  exact ⟨haccepted, hnode, w, o, className, c, symbol, hw, ho, hclassName, hc, hsymbol,
    hvar.2 fun hmem => hnone _ hmem rfl⟩

/-- A method that reads another one as a field of an object, and assigns to it. -/
def misreading : MethodDecl where
  name := "g"
  returnType := .simple "void"
  params := [⟨"a", .simple "A", 1⟩]
  body := .mk 1 [.expr (.assign 1 (.field 1 (.var 1 "a") "f") (.field 1 (.var 1 "a") "f"))]
  isStatic := true
  line := 1

/-- The class of both methods. -/
def misread : Program :=
  let result : Expr := .literal 1 ⟨.int 1, "1"⟩
  ⟨[⟨"A", [.method ⟨"f", .simple "int", [], .mk 1 [.ret 1 (some result)], false, 1⟩,
    .method misreading], 1⟩], 1⟩

/-- Inside the method that misreads. -/
def misreadingSite : Site :=
  (Site.ofClass (({} : Analyzer).analyze misread).2.scopes misread "A").enter misreading

/-- **A method that is read and assigned to as a field.** The program is accepted, although the
member that both accesses find is no variable. -/
theorem exists_field_access_of_method :
    (({} : Analyzer).analyze misread).1 = [] ∧
      (∀ role, misread.NodeAt (({} : Analyzer).analyze misread).2.scopes misreadingSite
        (role, .field 1 (.var 1 "a") "f")) ∧
      Typing.typeOf misreadingSite.scopes (.var 1 "a") = .ok (.named "A") ∧
      ∃ c symbol, misreadingSite.scopes.class? "A" = some c ∧ c.members.get? "f" = some symbol ∧
        symbol.isVar = false := by
  have hmember : ((misreadingSite.scopes.class? "A").bind fun c =>
      c.members.get? "f").map Symbol.isVar = some false := by decide +kernel
  obtain ⟨symbol, hsymbol, hvar⟩ := Option.map_eq_some_iff.1 hmember
  obtain ⟨c, hc, hsymbol⟩ := Option.bind_eq_some_iff.1 hsymbol
  refine ⟨by decide +kernel, fun role => ?_, by decide +kernel, c, symbol, hc, hsymbol, hvar⟩
  have hstmt : misread.StmtAt (({} : Analyzer).analyze misread).2.scopes
      (misreadingSite, .expr (.assign 1 (.field 1 (.var 1 "a") "f") (.field 1 (.var 1 "a") "f"))) :=
    ⟨_, .head _, misreading, .tail _ (.head _), _, .head _, .refl⟩
  refine ⟨_, mem_occurrences_of_stmtAt hstmt (.head _), ?_⟩
  cases role with
  | value => exact .tail _ (.tail _ (.tail _ (.head _)))
  | target => exact .tail _ (.head _)

end Program

end ClassLang
