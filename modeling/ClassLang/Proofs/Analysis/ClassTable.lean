import ClassLang.Proofs.Analysis.ControlFlow
import ClassLang.Proofs.Analysis.Parts

set_option autoImplicit false

/-!
# What the global scope of an accepted program says

The check of an accepted program leaves a global scope with the built-in classes and the classes of
the program. Each member of a class of the program is bound to the type that is written at it, and
nothing else is bound.

## Main definitions

* `ClassLang.Scopes.Reads` — a written type stands for a type.
* `ClassLang.Table.Describes` — a global scope holds the classes of a program.

## Main results

* `ClassLang.Scopes.reads_iff` — what a written type stands for.
* `ClassLang.Analyzer.nodup_members` — the members of a class have different names.
* `ClassLang.Analyzer.exists_describes` — the global scope of an accepted program holds its classes,
  and the bodies of its members pass in it.
-/

namespace ClassLang

/-! ## Written types -/

/-- A written type stands for a type, whatever the line that it is written in. -/
def Scopes.Reads (s : Scopes) (type : TypeExpr) (t : Ty) : Prop :=
  ∀ line, Typing.resolveType s line type = .ok t

/-- Written types stand for types, whatever the line that they are written in. -/
def Scopes.ReadsAll (s : Scopes) (types : List TypeExpr) (ts : List Ty) : Prop :=
  ∀ line, Typing.resolveTypes s line types = .ok ts

/-- What a name with type arguments stands for: a primitive type, or a class. -/
inductive Scopes.Names (s : Scopes) (name : String) (args : List TypeExpr) : Ty → Prop where
  | primitive {t : Ty} (h : Builtin.primitive? name = some t) : Names s name args t
  | plain {c : ClassInfo} (hname : Builtin.primitive? name = none) (hc : s.class? name = some c)
      (hplain : c.isGeneric = false) : Names s name args (.named name)
  | generic {c : ClassInfo} {ts : List Ty} (hname : Builtin.primitive? name = none)
      (hc : s.class? name = some c) (hgeneric : c.isGeneric = true) (hargs : s.ReadsAll args ts) :
      Names s name args (.generic (.named name) ts)

namespace Scopes

variable {s : Scopes}

mutual

/-- Whether a written type stands for a type does not depend on its line. -/
theorem reads_of_resolveType : (type : TypeExpr) → ∀ {line : Nat} {t : Ty},
    Typing.resolveType s line type = .ok t → s.Reads type t
  | .mk name args dimensions, line, t, h, line' => by
    rw [Typing.resolveType] at h ⊢
    cases hname : Builtin.primitive? name with
    | some element =>
      rw [hname] at h
      exact h
    | none =>
      rw [hname] at h
      cases hc : s.class? name with
      | none =>
        rw [hc] at h
        cases h
      | some c =>
        rw [hc] at h
        simp only at h ⊢
        by_cases hgeneric : c.isGeneric = true
        · rw [if_pos hgeneric] at h ⊢
          obtain ⟨ts, hargs, h⟩ := Typing.bind_eq_ok.1 h
          rw [readsAll_of_resolveTypes args hargs line']
          exact h
        · rw [if_neg hgeneric] at h ⊢
          exact h

/-- Nor does it for several of them. -/
theorem readsAll_of_resolveTypes : (types : List TypeExpr) → ∀ {line : Nat} {ts : List Ty},
    Typing.resolveTypes s line types = .ok ts → s.ReadsAll types ts
  | [], _, _, h, _ => h
  | type :: types, line, ts, h, line' => by
    obtain ⟨t, htype, h⟩ := Typing.bind_eq_ok.1 h
    obtain ⟨ts', htypes, h⟩ := Typing.bind_eq_ok.1 h
    rw [Typing.resolveTypes, reads_of_resolveType type htype line',
      readsAll_of_resolveTypes types htypes line']
    exact h

end

/-- **What a written type stands for:** an array, of as many dimensions as are written, of what its
name stands for. -/
theorem reads_iff {name : String} {args : List TypeExpr} {dimensions : Nat} {t : Ty} :
    s.Reads (.mk name args dimensions) t ↔
      ∃ element, s.Names name args element ∧ t = .arrayOf element dimensions := by
  constructor
  · intro h
    have hresolve := h 0
    rw [Typing.resolveType] at hresolve
    cases hname : Builtin.primitive? name with
    | some element =>
      rw [hname] at hresolve
      cases hresolve
      exact ⟨element, .primitive hname, rfl⟩
    | none =>
      rw [hname] at hresolve
      cases hc : s.class? name with
      | none =>
        rw [hc] at hresolve
        cases hresolve
      | some c =>
        rw [hc] at hresolve
        simp only at hresolve
        by_cases hgeneric : c.isGeneric = true
        · rw [if_pos hgeneric] at hresolve
          obtain ⟨ts, hargs, ⟨⟩⟩ := Typing.bind_eq_ok.1 hresolve
          exact ⟨_, .generic hname hc hgeneric (readsAll_of_resolveTypes args hargs), rfl⟩
        · rw [if_neg hgeneric] at hresolve
          cases hresolve
          exact ⟨_, .plain hname hc (Bool.eq_false_iff.2 hgeneric), rfl⟩
  · rintro ⟨element, helement, rfl⟩ line
    rw [Typing.resolveType]
    cases helement with
    | primitive hname => simp only [hname]; rfl
    | plain hname hc hplain => simp only [hname, hc, hplain]; rfl
    | generic hname hc hgeneric hargs => simp only [hname, hc, hgeneric, if_true, hargs line]; rfl

/-- The type at a place in a list stands for the type at that place. -/
lemma ReadsAll.getElem? {types : List TypeExpr} {ts : List Ty} (h : s.ReadsAll types ts) {i : Nat}
    {type : TypeExpr} (htype : types[i]? = some type) : ∃ t, ts[i]? = some t ∧ s.Reads type t := by
  induction types generalizing ts i with
  | nil => cases htype
  | cons first rest ih =>
    obtain ⟨t, hfirst, h⟩ := Typing.bind_eq_ok.1 (h 0)
    obtain ⟨ts', hrest, ⟨⟩⟩ := Typing.bind_eq_ok.1 h
    cases i with
    | zero =>
      cases htype
      exact ⟨t, rfl, reads_of_resolveType _ hfirst⟩
    | succ i => exact ih (readsAll_of_resolveTypes _ hrest) htype

/-- Scopes with the same global scope know the same classes. -/
lemma sameClasses_of_global {s t : Scopes} (h : s.global = t.global) : s.SameClasses t := by
  intro n
  simp only [Scopes.class?, h]

lemma Reads.of_global {s t : Scopes} (h : s.global = t.global) {type : TypeExpr} {ty : Ty}
    (hreads : s.Reads type ty) : t.Reads type ty := by
  intro line
  rw [← Typing.resolveType_of_sameClasses (sameClasses_of_global h)]
  exact hreads line

end Scopes

/-! ## Members -/

namespace Member

/-- The name of a member. -/
def name : Member → String
  | field d => d.name
  | method d => d.name

/-- The type that is written at a member: that of a field, or of the result of a method. -/
def type : Member → TypeExpr
  | field d => d.type
  | method d => d.returnType

/-- What the name of a member is bound to has the name and the type of the member, and is a variable
only if the member is a field. -/
lemma plan_symbol {s : Scopes} {m : Member} {plan : MemberPlan} (h : m.plan s = .ok plan) :
    plan.symbol.name = m.name ∧ s.Reads m.type plan.symbol.type ∧
      (plan.symbol.isVar = true → ∃ d, m = .field d) ∧ plan.symbol.isClass = false := by
  cases m with
  | field d =>
    obtain ⟨t, htype, ⟨⟩⟩ := Typing.bind_eq_ok.1 h
    exact ⟨rfl, Scopes.reads_of_resolveType _ htype, fun _ => ⟨d, rfl⟩, rfl⟩
  | method d =>
    obtain ⟨result, params, rfl, hresult⟩ := plan_method_eq_ok h
    exact ⟨rfl, Scopes.reads_of_resolveType _ hresult, nofun, rfl⟩

end Member

namespace Program

/-- The members of all classes. -/
def members (p : Program) : List Member :=
  p.classes.flatMap ClassDecl.members

/-- The names of all classes. -/
def classNames (p : Program) : List String :=
  p.classes.map ClassDecl.name

lemma mem_members_of_mem_memberItems {p : Program} {item : String × Member}
    (h : item ∈ Check.memberItems p.classes) : item.1 ∈ p.classNames ∧ item.2 ∈ p.members := by
  obtain ⟨c, hc, hitem⟩ := List.mem_flatMap.1 h
  obtain ⟨m, hm, rfl⟩ := List.mem_map.1 hitem
  exact ⟨List.mem_map_of_mem hc, List.mem_flatMap.2 ⟨c, hc, hm⟩⟩

end Program

/-! ## Global scopes -/

/-- A global scope holds the built-in classes and the classes of a program. What a member of one of
these is bound to comes from the one member of that name in the class. -/
structure Table.Describes (g : Table) (p : Program) : Prop where
  builtin : ∀ {name : String}, name ∉ p.classNames → g.get? name = Builtin.globals.get? name
  fresh : ∀ {name : String}, name ∈ p.classNames → Builtin.globals.get? name = none
  declared : ∀ {name : String}, name ∈ p.classNames → ∃ members : Table,
    g.get? name = some (.classDef name [] members) ∧
      ∀ {m : String} {symbol : Symbol}, members.get? m = some symbol →
        ∃ member, (name, member) ∈ Check.memberItems p.classes ∧
          ∃ plan, member.plan { global := g } = .ok plan ∧ plan.symbol = symbol ∧ member.name = m
  distinct : (Check.memberItems p.classes).Pairwise fun item item' =>
    item.1 = item'.1 → item.2.name ≠ item'.2.name

/-- What is found in a table is in it, under its name. -/
lemma Table.mem_of_get? {table : Table} {name : String} {symbol : Symbol}
    (h : table.get? name = some symbol) : symbol ∈ table ∧ symbol.name = name := by
  rw [Table.get?] at h
  exact ⟨List.mem_of_find?_eq_some h, by simpa using List.find?_some h⟩

namespace Table.Describes

variable {g : Table} {p : Program} {s : Scopes}

/-- All that is bound globally are classes. -/
lemma isClass_of_get? (h : g.Describes p) {name : String} {symbol : Symbol}
    (hsymbol : g.get? name = some symbol) : symbol.isClass = true ∧ symbol.type = .named name := by
  by_cases hname : name ∈ p.classNames
  · obtain ⟨members, hbound, -⟩ := h.declared hname
    rw [hbound] at hsymbol
    cases hsymbol
    exact ⟨rfl, rfl⟩
  · have hall : ∀ symbol ∈ Builtin.globals,
        symbol.isClass = true ∧ symbol.type = .named symbol.name := by decide
    rw [h.builtin hname] at hsymbol
    obtain ⟨hmem, rfl⟩ := Table.mem_of_get? hsymbol
    exact hall symbol hmem

/-- The members of a class of the program come from members of the program. -/
lemma exists_member (h : g.Describes p) (hs : s.global = g) {name : String} {c : ClassInfo}
    (hname : name ∈ p.classNames) (hc : s.class? name = some c) :
    c.typeParams = [] ∧ ∀ {m : String} {symbol : Symbol}, c.members.get? m = some symbol →
      ∃ member ∈ p.members, member.name = m ∧ s.Reads member.type symbol.type ∧
        (symbol.isVar = true → ∃ d, member = .field d) ∧ symbol.isClass = false := by
  obtain ⟨members, hbound, hfrom⟩ := h.declared hname
  rw [Scopes.class?, hs, hbound] at hc
  obtain rfl := Option.some.inj hc
  refine ⟨rfl, fun {m symbol} hsymbol => ?_⟩
  obtain ⟨member, hmember, plan, hplan, rfl, hm⟩ := hfrom hsymbol
  obtain ⟨-, hreads, hvar, hclass⟩ := Member.plan_symbol hplan
  exact ⟨member, (Program.mem_members_of_mem_memberItems hmember).2, hm,
    hreads.of_global hs.symm, hvar, hclass⟩

/-- Classes that are not those of the program are built in. -/
lemma class?_of_notMem (h : g.Describes p) (hs : s.global = g) {name : String}
    (hname : name ∉ p.classNames) :
    s.class? name = Builtin.globals.get? name >>= Symbol.class? := by
  rw [Scopes.class?, hs, h.builtin hname]

/-- The name of a built-in class is not that of a class of the program. -/
lemma notMem_of_builtin (h : g.Describes p) {name : String}
    (hname : Builtin.globals.get? name ≠ none) : name ∉ p.classNames :=
  fun hmem => hname (h.fresh hmem)

end Table.Describes

namespace Check

/-- Declaring classes binds the names of these, which were free, and no others. -/
lemma Chain.get?_of_introduces {names : List String} {ks : List Unit} {g h : Table}
    (hchain : Chain Introduces names ks g h) (n : String) :
    (n ∈ names → g.get? n = none ∧ h.get? n = some (.classDef n [] [])) ∧
      (n ∉ names → h.get? n = g.get? n) := by
  induction hchain with
  | nil g => exact ⟨nofun, fun _ => rfl⟩
  | @cons name _ names _ g _ l hfirst _ ih =>
    obtain ⟨hfree, rfl⟩ := hfirst
    obtain ⟨hin, hout⟩ := ih
    rw [Table.get?_insert_classDef] at hin hout
    by_cases hname : name = n
    · -- a name that is declared is not declared again
      subst hname
      have hnew : name ∉ names := fun hmem => by
        have hnone := (hin hmem).1
        rw [if_pos rfl] at hnone
        cases hnone
      have hbound := hout hnew
      rw [if_pos rfl] at hbound
      exact ⟨fun _ => ⟨hfree, hbound⟩, fun hnot => absurd List.mem_cons_self hnot⟩
    · rw [if_neg hname] at hin hout
      refine ⟨fun hmem => hin ?_, fun hnot => hout fun hmem => hnot (List.mem_cons_of_mem _ hmem)⟩
      exact (List.mem_cons.1 hmem).resolve_left (Ne.symm hname)

/-- Declaring members leaves other names as they are. -/
lemma Chain.get?_of_notMem {items : List (String × Member)} {ks : List (String × MemberPlan)}
    {g h : Table} (hchain : Chain Declares items ks g h) {n : String}
    (hn : n ∉ items.map Prod.fst) : h.get? n = g.get? n := by
  induction hchain with
  | nil g => rfl
  | cons hfirst _ ih =>
    obtain ⟨-, -, c, -, -, rfl⟩ := hfirst
    rw [List.map_cons, List.mem_cons, not_or] at hn
    rw [ih hn.2, Table.get?_insert_classDef, if_neg (Ne.symm hn.1)]

/-- A class keeps its type parameters while members are declared. Its members are those that it had
and those that were declared.

**Proof sketch.** By induction on the steps: each one adds at most one symbol to the class, which is
that of its member. The types of the member stay the same in all that follows. -/
lemma Chain.exists_members {items : List (String × Member)} {ks : List (String × MemberPlan)}
    {g h : Table} (hchain : Chain Declares items ks g h) {n : String} {typeParams : List String}
    {members : Table} (hn : g.get? n = some (.classDef n typeParams members)) :
    ∃ members' : Table, h.get? n = some (.classDef n typeParams members') ∧
      ∀ {m : String} {symbol : Symbol}, members'.get? m = some symbol →
        members.get? m = some symbol ∨ ∃ member, (n, member) ∈ items ∧ ∃ plan,
          member.plan { global := h } = .ok plan ∧ plan.symbol = symbol ∧ symbol.name = m := by
  induction hchain generalizing members with
  | nil g => exact ⟨members, hn, .inl⟩
  | @cons item k items _ g _ l hfirst hrest ih =>
    have hclasses := (hrest.cons hfirst).sameClasses
    obtain ⟨-, hplan, c, hc, -, rfl⟩ := hfirst
    by_cases hitem : item.1 = n
    · subst hitem
      obtain rfl : c = ⟨typeParams, members⟩ := by
        rw [Scopes.class?, hn] at hc
        exact (Option.some.inj hc).symm
      obtain ⟨members', hl, hfrom⟩ := @ih (members.insert k.2.symbol) (by
        rw [Table.get?_insert_classDef, if_pos rfl])
      refine ⟨members', hl, fun {m symbol} hsymbol => ?_⟩
      rcases hfrom hsymbol with hold | ⟨member, hmem, hdeclared⟩
      · rw [Table.get?_insert] at hold
        split at hold
        · -- the symbol is the one that this step adds
          obtain rfl := Option.some.inj hold
          refine .inr ⟨item.2, List.mem_cons_self, k.2, ?_, rfl, by assumption⟩
          rw [plan_of_sameClasses hclasses]
          exact hplan
        · exact .inl hold
      · exact .inr ⟨member, List.mem_cons_of_mem _ hmem, hdeclared⟩
    · obtain ⟨members', hl, hfrom⟩ := @ih members (by
        rw [Table.get?_insert_classDef, if_neg hitem]
        exact hn)
      refine ⟨members', hl, fun hsymbol => (hfrom hsymbol).imp_right ?_⟩
      rintro ⟨member, hmem, hdeclared⟩
      exact ⟨member, List.mem_cons_of_mem _ hmem, hdeclared⟩

/-- A member is not declared under a name that its class has already. -/
lemma Chain.ne_of_declared {items : List (String × Member)} {ks : List (String × MemberPlan)}
    {g h : Table} (hchain : Chain Declares items ks g h) {n m : String} {c : ClassInfo}
    (hc : Scopes.class? { global := g } n = some c) (hm : c.members.get? m ≠ none) :
    ∀ item ∈ items, item.1 = n → item.2.name ≠ m := by
  induction hchain generalizing c with
  | nil g => exact List.forall_mem_nil _
  | @cons first k items _ g _ l hfirst hrest ih =>
    obtain ⟨-, hplan, c', hc', hfree, rfl⟩ := hfirst
    rw [(Member.plan_symbol hplan).1] at hfree
    refine List.forall_mem_cons.2 ⟨fun hn hname => ?_, ?_⟩
    · obtain rfl : c' = c := by
        rw [hn, hc] at hc'
        exact (Option.some.inj hc').symm
      exact hm (hname ▸ hfree)
    · -- the class keeps the name
      let g' := g.insert (.classDef first.1 c'.typeParams (c'.members.insert k.2.symbol))
      have hkept : ∃ c'', Scopes.class? { global := g' } n = some c'' ∧
          c''.members.get? m ≠ none := by
        rw [Scopes.class?_insert]
        split
        next hn =>
          obtain rfl : c' = c := by
            rw [hn, hc] at hc'
            exact (Option.some.inj hc').symm
          refine ⟨_, rfl, ?_⟩
          rw [Table.get?_insert]
          split
          · exact Option.some_ne_none _
          · exact hm
        next => exact ⟨c, hc, hm⟩
      obtain ⟨c'', hc'', hm''⟩ := hkept
      exact ih hc'' hm''

/-- Members of one class are declared under different names. -/
lemma Chain.pairwise_names {items : List (String × Member)} {ks : List (String × MemberPlan)}
    {g h : Table} (hchain : Chain Declares items ks g h) :
    items.Pairwise fun item item' => item.1 = item'.1 → item.2.name ≠ item'.2.name := by
  induction hchain with
  | nil g => exact .nil
  | @cons first k items _ g _ l hfirst hrest ih =>
    obtain ⟨-, hplan, c, hc, -, rfl⟩ := hfirst
    refine List.pairwise_cons.2 ⟨fun item hitem hclass hname => ?_, ih⟩
    have hbound := Scopes.class?_insert g first.1 first.1 c.typeParams
      (c.members.insert k.2.symbol)
    rw [if_pos rfl] at hbound
    refine hrest.ne_of_declared hbound ?_ item hitem hclass.symm hname.symm
    rw [Table.get?_insert, if_pos (Member.plan_symbol hplan).1]
    exact Option.some_ne_none _

/-- The declarations of a program leave a global scope that describes it. -/
lemma describes_of_chains {p : Program} {ks : List Unit} {items : List (String × MemberPlan)}
    {g h : Table} (hclasses : Chain Introduces (p.classes.map ClassDecl.name) ks Builtin.globals g)
    (hmembers : Chain Declares (memberItems p.classes) items g h) : h.Describes p where
  builtin := by
    intro name hname
    have hother : name ∉ (memberItems p.classes).map Prod.fst := by
      intro hmem
      obtain ⟨item, hitem, rfl⟩ := List.mem_map.1 hmem
      exact hname (Program.mem_members_of_mem_memberItems hitem).1
    exact (hmembers.get?_of_notMem hother).trans ((hclasses.get?_of_introduces name).2 hname)
  fresh := fun hname => ((hclasses.get?_of_introduces _).1 hname).1
  declared := by
    intro name hname
    have hbound := ((hclasses.get?_of_introduces name).1 hname).2
    obtain ⟨members, hh, hfrom⟩ := hmembers.exists_members hbound
    refine ⟨members, hh, fun {m symbol} hsymbol => ?_⟩
    rcases hfrom hsymbol with hnone | ⟨member, hmember, plan, hplan, rfl, rfl⟩
    · cases hnone
    · exact ⟨member, hmember, plan, hplan, rfl, (Member.plan_symbol hplan).1.symm⟩
  distinct := hmembers.pairwise_names

end Check

/-- The members of a class of an accepted program have different names. -/
theorem Analyzer.nodup_members {a : Analyzer} {p : Program} (haccepted : (a.analyze p).1 = [])
    {c : ClassDecl} (hc : c ∈ p.classes) : (c.members.map Member.name).Nodup := by
  obtain ⟨b, hrun, -⟩ := passes_of_accepted haccepted
  obtain ⟨_, _, _, _, -, -, hmembers, -⟩ := (Check.program_eq_ok p _).1 hrun
  have hnames := (List.pairwise_flatMap.1 hmembers.pairwise_names).1 c hc
  rw [List.pairwise_map] at hnames
  rw [List.Nodup, List.pairwise_map]
  exact hnames.imp fun h => h rfl

/-- **An accepted program leaves a description of itself.** Only the global scope is left, which
holds the classes of the program. Each member has the types that are written at it, and its body
passes in that scope. -/
theorem Analyzer.exists_describes {a : Analyzer} {p : Program}
    (haccepted : (a.analyze p).1 = []) :
    ∃ g : Table, (a.analyze p).2.scopes = { global := g } ∧ g.Describes p ∧
      ∀ c ∈ p.classes, ∀ m ∈ c.members, ∃ plan,
        m.plan { global := g } = .ok plan ∧ Check.BodyPasses g c.name plan := by
  obtain ⟨b, hrun, hscopes⟩ := passes_of_accepted haccepted
  obtain ⟨ks, items, g', g, rfl, hclasses, hmembers, hbodies⟩ := (Check.program_eq_ok p _).1 hrun
  refine ⟨g, hscopes, Check.describes_of_chains hclasses hmembers, fun c hc m hm => ?_⟩
  have hitem : (c.name, m) ∈ Check.memberItems p.classes :=
    List.mem_flatMap.2 ⟨c, hc, List.mem_map_of_mem hm⟩
  obtain ⟨plan, hplanned, hplan⟩ := hmembers.exists_plan hitem
  exact ⟨plan, hplan, hbodies _ hplanned⟩

end ClassLang
