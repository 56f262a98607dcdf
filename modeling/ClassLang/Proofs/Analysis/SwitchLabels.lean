import ClassLang.Proofs.Analysis.Nodes
import ClassLang.Proofs.Grammar.ProgramLeaves
import ClassLang.Proofs.Token.LexemeShapes

set_option autoImplicit false

/-!
# The labels of switches

The parser takes the label of a case from a single token, so it is a literal. The check asks for the
type of the condition, which is that of integers or of characters, and keeps the texts of the labels
that it has seen. So the labels of a switch in an accepted program have different texts, and at most
one arm is the default. The texts of characters are different only if their values are. But one
integer can be written in many ways, and then the check takes it for many labels.

## Main definitions

* `ClassLang.Check.ArmsSeen.AdmitsAll` — what the check asks of the arms of a switch.
* `ClassLang.Leaves.quoted` — literals of characters stand between quotation marks.

## Main results

* `ClassLang.Check.ArmsSeen.AdmitsAll.nodup_texts`,
  `ClassLang.Check.ArmsSeen.AdmitsAll.countP_otherwise` — what follows from it.
* `ClassLang.Program.labels_of_switch` — the labels of a switch in an accepted program.
-/

namespace ClassLang

/-! ## Arms that pass -/

/-- The literal that an expression is. -/
def Expr.literal? : Expr → Option Literal
  | .literal _ l => some l
  | _ => none

/-- The labels of a switch. -/
def SwitchArm.labels (arms : List SwitchArm) : List Expr :=
  arms.filterMap SwitchArm.label?

/-- Those labels that are literals. -/
def SwitchArm.literals (arms : List SwitchArm) : List Literal :=
  (SwitchArm.labels arms).filterMap Expr.literal?

namespace Check.ArmsSeen

variable {s : Scopes} {type : Ty} {seen : ArmsSeen} {arms : List SwitchArm}

/-- What the check asks of an arm, after those that it has seen. -/
def Admits (seen : ArmsSeen) (s : Scopes) (type : Ty) : SwitchArm → Prop
  | .labelled _ e _ =>
    (∃ t, Typing.typeOf s e = .ok t ∧ t.isCompatibleWith type = true) ∧
      ∀ l ∈ e.literal?, l.text ∉ seen.labels
  | .otherwise _ _ => seen.hasDefault = false

/-- What the check asks of arms one after the other. -/
def AdmitsAll (s : Scopes) (type : Ty) : ArmsSeen → List SwitchArm → Prop
  | _, [] => True
  | seen, arm :: arms => seen.Admits s type arm ∧ AdmitsAll s type (seen.after s type arm) arms

lemma hasDefault_after_labelled (line : Nat) (e : Expr) (body : Block) :
    (seen.after s type (.labelled line e body)).hasDefault = seen.hasDefault := by
  cases e with
  | literal line' l =>
    simp only [after]
    split <;> rfl
  | _ => rfl

lemma labels_after_literal {line line' : Nat} {l : Literal} {body : Block}
    (h : seen.Admits s type (.labelled line (.literal line' l) body)) :
    (seen.after s type (.labelled line (.literal line' l) body)).labels =
      l.text :: seen.labels := by
  obtain ⟨⟨t, ht, hfits⟩, -⟩ := h
  simp only [after, acceptsLabel, ht, hfits, if_true]

/-- The labels fit the condition. -/
lemma AdmitsAll.exists_typeOf (h : AdmitsAll s type seen arms) :
    ∀ e ∈ SwitchArm.labels arms,
      ∃ t, Typing.typeOf s e = .ok t ∧ t.isCompatibleWith type = true := by
  induction arms generalizing seen with
  | nil => exact List.forall_mem_nil _
  | cons arm arms ih =>
    cases arm with
    | labelled line e body => exact List.forall_mem_cons.2 ⟨h.1.1, ih h.2⟩
    | otherwise line body => exact ih h.2

/-- At most one arm is the default, and none after one that has been seen. -/
lemma AdmitsAll.countP_otherwise (h : AdmitsAll s type seen arms) :
    seen.hasDefault.toNat + arms.countP (fun arm => arm.label?.isNone) ≤ 1 := by
  induction arms generalizing seen with
  | nil => exact Bool.toNat_le _
  | cons arm arms ih =>
    have hrest := ih h.2
    cases arm with
    | labelled line e body =>
      rw [hasDefault_after_labelled] at hrest
      rwa [List.countP_cons_of_neg (by simp [SwitchArm.label?])]
    | otherwise line body =>
      have hnone : seen.hasDefault = false := h.1
      have hsome : (seen.after s type (.otherwise line body)).hasDefault = true := rfl
      rw [hsome, Bool.toNat_true] at hrest
      rw [hnone, List.countP_cons_of_pos (by simp [SwitchArm.label?]), Bool.toNat_false]
      omega

/-- The texts of labels are different from each other and from those that have been seen. -/
lemma AdmitsAll.nodup_texts (h : AdmitsAll s type seen arms) :
    ((SwitchArm.literals arms).map Literal.text).Nodup ∧
      ∀ text ∈ (SwitchArm.literals arms).map Literal.text, text ∉ seen.labels := by
  induction arms generalizing seen with
  | nil => exact ⟨List.nodup_nil, List.forall_mem_nil _⟩
  | cons arm arms ih =>
    obtain ⟨hadmits, hrest⟩ := h
    obtain ⟨hnodup, hfresh⟩ := ih hrest
    cases arm with
    | labelled line e body =>
      cases e with
      | literal line' l =>
        rw [labels_after_literal hadmits] at hfresh
        refine ⟨List.nodup_cons.2 ⟨fun hmem => hfresh _ hmem List.mem_cons_self, hnodup⟩, ?_⟩
        refine List.forall_mem_cons.2 ⟨hadmits.2 l rfl, fun text htext hmem => ?_⟩
        exact hfresh text htext (List.mem_cons_of_mem _ hmem)
      | _ => exact ⟨hnodup, hfresh⟩
    | otherwise line body => exact ⟨hnodup, hfresh⟩

end Check.ArmsSeen

namespace Target.Site

variable {w : Site} {g : Table} {p : Program} {c : String} {a b : Analyzer}

lemma Reached.admits_arm {type : Ty} {seen : Check.ArmsSeen} {arm : SwitchArm}
    (h : w.Reached g p c a) (hrun : (Check.arm type seen arm).runFrom a = (.ok (), b)) :
    seen.Admits w.scopes type arm := by
  cases arm with
  | labelled line e body =>
    obtain ⟨_, _, hlabel, hrun⟩ := Check.runFrom_bind_eq_ok.1 hrun
    obtain ⟨t, _, htype, hfits⟩ := Check.runFrom_bind_eq_ok.1 hlabel
    obtain ⟨_, _, -, hfresh⟩ := Check.runFrom_bind_eq_ok.1 hrun
    refine ⟨⟨t, h.typeOf htype, ?_⟩, fun l hl => ?_⟩
    · simpa using (Check.runFrom_of_guard hfits).1
    · cases e with
      | literal line' l' =>
        obtain rfl := Option.some.inj hl
        intro hseen
        rw [Check.freshLabel, if_pos hseen] at hfresh
        cases hfresh
      | _ => cases hl
  | otherwise line body =>
    simp only [Check.arm] at hrun
    exact Bool.eq_false_iff.2 (Check.runFrom_of_guard hrun).1

/-- **The arms of a switch that passes are those that the check asks for.** -/
lemma Reached.admitsAll_arms {type : Ty} {seen : Check.ArmsSeen} {arms : List SwitchArm}
    (h : w.Reached g p c a) (hrun : (Check.arms type seen arms).runFrom a = (.ok (), b)) :
    Check.ArmsSeen.AdmitsAll w.scopes type seen arms := by
  induction arms generalizing seen a with
  | nil => trivial
  | cons first rest ih =>
    obtain ⟨a', hfirst, h', hrest⟩ := h.bind_arms hrun
    exact ⟨h.admits_arm hfirst, ih h' hrest⟩

end Target.Site

/-! ## Labels that are read -/

namespace Leaves

/-- Literals of characters stand between quotation marks. -/
def quoted : Leaves where
  token := Token.Quoted
  name _ := True
  declared _ := True
  literal _ := True
  line _ := True

lemma lawful_quoted : quoted.Lawful where
  line _ := trivial
  name _ _ := trivial
  beforeBracket _ _ := trivial
  declared _ _ := trivial
  literal _ _ := trivial
  behead _ hkind := Token.quoted_behead hkind
  rescan _ _ hu := Token.quoted_of_mem_rescan hu

end Leaves

/-- If the value is a character, the text is this character between quotation marks. -/
def Literal.Quoted (l : Literal) : Prop :=
  ∀ c, l.value = .char c → l.text.toList = '\'' :: (c.toList ++ ['\''])

lemma Expr.LabelFrom.exists_literal {e : Expr} (h : e.LabelFrom Leaves.quoted) :
    ∃ line l, e = .literal line l ∧ l.Quoted := by
  obtain ⟨hlabel, t, value, ht, hkind, rfl⟩ := h
  refine ⟨t.line, _, rfl, ?_⟩
  rintro c rfl
  obtain ⟨u, hu⟩ := ht hkind
  have hvalue : Grammar.unquote t.lexeme = c := hlabel.1
  rw [Grammar.unquote, hu, List.tail_cons, List.dropLast_concat] at hvalue
  rw [← hvalue, String.toList_ofList]
  exact hu

section ReadFrom

variable {L : Leaves}

lemma Stmt.allReadFrom_iff {ss : List Stmt} :
    Stmt.AllReadFrom L ss ↔ ∀ s ∈ ss, s.ReadFrom L := by
  induction ss with
  | nil => exact iff_of_true trivial (List.forall_mem_nil _)
  | cons s ss ih => rw [Stmt.AllReadFrom, ih, List.forall_mem_cons]

lemma SwitchArm.allReadFrom_iff {arms : List SwitchArm} :
    SwitchArm.AllReadFrom L arms ↔ ∀ arm ∈ arms, arm.ReadFrom L := by
  induction arms with
  | nil => exact iff_of_true trivial (List.forall_mem_nil _)
  | cons arm arms ih => rw [SwitchArm.AllReadFrom, ih, List.forall_mem_cons]

lemma Block.ReadFrom.stmts {body : Block} (h : body.ReadFrom L) :
    ∀ s ∈ body.stmts, s.ReadFrom L := by
  cases body with
  | mk line ss => exact Stmt.allReadFrom_iff.1 h.2

lemma SwitchArm.ReadFrom.body {arm : SwitchArm} (h : arm.ReadFrom L) : arm.body.ReadFrom L := by
  cases arm with
  | labelled line label body => exact h.2.2
  | otherwise line body => exact h.2

/-- What stands inside a statement is read from the same tokens. -/
lemma Stmt.ReadFrom.child {s s' : Stmt} (h : s.ReadFrom L) (hs' : s' ∈ s.children) :
    s'.ReadFrom L := by
  cases s with
  | block body => exact Block.ReadFrom.stmts h s' hs'
  | ifThen line e body | whileLoop line e body => exact h.2.2.stmts s' hs'
  | ifElse line e body other =>
    exact (List.mem_append.1 hs').elim (h.2.2.1.stmts s') (h.2.2.2.stmts s')
  | doWhile line body e => exact h.2.1.stmts s' hs'
  | forLoop line init e update body => exact h.2.2.2.2.stmts s' hs'
  | switch line e arms =>
    obtain ⟨arm, harm, hs'⟩ := List.mem_flatMap.1 hs'
    exact (SwitchArm.allReadFrom_iff.1 h.2.2 arm harm).body.stmts s' hs'
  | varDecl | ret | expr | breakOff | continueOn => cases hs'

lemma Program.ReadFrom.of_contains {p : Program} (h : p.ReadFrom L) {s : Stmt}
    (hs : p.Contains s) : s.ReadFrom L := by
  obtain ⟨d, hd, top, htop, hinside⟩ := hs
  obtain ⟨c, hc, hd⟩ := List.mem_flatMap.1 hd
  have hmethod : (Member.method d).ReadFrom L := (h.2 c hc).2.2 _ (ClassDecl.mem_methods.1 hd)
  induction hinside with
  | refl => exact hmethod.2.2.2.stmts top htop
  | tail _ hchild ih => exact ih.child hchild

/-- The labels of a switch are read from tokens. -/
lemma Program.ReadFrom.labels {p : Program} (h : p.ReadFrom L) {line : Nat} {e : Expr}
    {arms : List SwitchArm} (hswitch : p.Contains (.switch line e arms)) :
    ∀ label ∈ SwitchArm.labels arms, label.LabelFrom L := by
  intro label hlabel
  obtain ⟨arm, harm, hlabel⟩ := List.mem_filterMap.1 hlabel
  have harm := SwitchArm.allReadFrom_iff.1 (h.of_contains hswitch).2.2 arm harm
  cases arm with
  | labelled line' label' body =>
    obtain rfl := Option.some.inj hlabel
    exact harm.2.1
  | otherwise line' body => cases hlabel

end ReadFrom

/-! ## Accepted programs -/

open Target

/-- A literal that fits integers is one, and so it is with characters. -/
lemma Typing.literalType_eq_of_isCompatibleWith {v : Literal.Value} {type : Ty}
    (htype : type = .int ∨ type = .char) (h : (literalType v).isCompatibleWith type = true) :
    literalType v = type := by
  rcases htype with rfl | rfl <;> cases v <;> first | rfl | cases h

/-- Of integers and characters, it is the integers that have several texts. -/
lemma Literal.Quoted.exists_int {l l' : Literal} (hl : l.Quoted) (hl' : l'.Quoted) {type : Ty}
    (hkind : type = .int ∨ type = .char) (htype : Typing.literalType l.value = type)
    (htext : l.text ≠ l'.text) (hvalue : l.value = l'.value) : ∃ n, l.value = .int n := by
  cases hv : l.value with
  | int n => exact ⟨n, rfl⟩
  | char c =>
    have hsame := (hl c hv).trans (hl' c (hvalue ▸ hv)).symm
    exact absurd (String.toList_inj.1 hsame) htext
  | _ =>
    rw [hv] at htype
    subst htype
    rcases hkind with hkind | hkind <;> cases hkind

/-- The labels that are literals have the type of the condition. -/
lemma Check.ArmsSeen.AdmitsAll.literalType_eq {s : Scopes} {type : Ty} {seen : ArmsSeen}
    {arms : List SwitchArm} (htype : type = .int ∨ type = .char) (h : AdmitsAll s type seen arms) :
    ∀ l ∈ SwitchArm.literals arms, Typing.literalType l.value = type := by
  intro l hl
  obtain ⟨e, he, hl⟩ := List.mem_filterMap.1 hl
  obtain ⟨t, ht, hfits⟩ := h.exists_typeOf e he
  cases e with
  | literal line l' =>
    obtain rfl := Option.some.inj hl
    obtain rfl := Except.ok.inj ht
    exact Typing.literalType_eq_of_isCompatibleWith htype hfits
  | _ => cases hl

/-- In an accepted program the arms of each switch are such as the check asks for. -/
lemma Program.admitsAll_of_stmtAt {a : Analyzer} {p : Program} (haccepted : (a.analyze p).1 = [])
    {w : Site} {line : Nat} {e : Expr} {arms : List SwitchArm}
    (hw : p.StmtAt (a.analyze p).2.scopes (w, .switch line e arms)) :
    ∃ type, (type = .int ∨ type = .char) ∧ Typing.typeOf w.scopes e = .ok type ∧
      Check.ArmsSeen.AdmitsAll w.scopes type {} arms := by
  obtain ⟨g, c, hpasses⟩ := passes_of_stmtAt haccepted hw
  obtain ⟨type, a', b, htype, hkind, hreached, harms⟩ := hpasses.switch
  exact ⟨type, hkind, htype, hreached.admitsAll_arms harms⟩

/-- **The labels of switches.** Let a program be parsed from a text and accepted. Then in each of
its switches at most one arm is the default, all labels are literals, and no two of them have the
same text. So two of them have the same value only if both are integers. A switch stands at a site,
where its condition has the type of integers or of characters, and all labels have that type
too. -/
theorem Program.labels_of_switch (a : Analyzer) (source : String) (p : Program)
    (hparsed : Program.ofText source = .ok p) (haccepted : (a.analyze p).1 = []) (line : Nat)
    (e : Expr) (arms : List SwitchArm) (hswitch : p.Contains (.switch line e arms)) :
    arms.countP (fun arm => arm.label?.isNone) ≤ 1 ∧
      (∀ label ∈ SwitchArm.labels arms, ∃ line l, label = .literal line l) ∧
      (SwitchArm.literals arms).Pairwise (fun l l' =>
        l.text ≠ l'.text ∧ (l.value = l'.value → ∃ n, l.value = .int n)) ∧
      (∃ w, p.StmtAt (a.analyze p).2.scopes (w, .switch line e arms)) ∧
      ∀ w, p.StmtAt (a.analyze p).2.scopes (w, .switch line e arms) →
        ∃ type, (type = .int ∨ type = .char) ∧ Typing.typeOf w.scopes e = .ok type ∧
          ∀ l ∈ SwitchArm.literals arms, Typing.literalType l.value = type := by
  obtain ⟨w, hw⟩ := hswitch.exists_stmtAt (a.analyze p).2.scopes
  obtain ⟨type, hkind, -, hadmits⟩ := admitsAll_of_stmtAt haccepted hw
  have hread := (readFrom_of_ofTokens Leaves.lawful_quoted
    (fun t => Token.quoted_of_mem_tokenize) hparsed).labels hswitch
  have hquoted : ∀ l ∈ SwitchArm.literals arms, l.Quoted := by
    intro l hl
    obtain ⟨label, hlabel, hl⟩ := List.mem_filterMap.1 hl
    obtain ⟨line, l', rfl, hl'⟩ := (hread label hlabel).exists_literal
    exact Option.some.inj hl ▸ hl'
  refine ⟨by simpa using hadmits.countP_otherwise, fun label hlabel => ?_, ?_, ⟨w, hw⟩,
    fun w hw => ?_⟩
  · obtain ⟨line, l, rfl, -⟩ := (hread label hlabel).exists_literal
    exact ⟨line, l, rfl⟩
  · refine (List.pairwise_map.1 hadmits.nodup_texts.1).imp_of_mem fun hl hl' htext => ⟨htext, ?_⟩
    exact (hquoted _ hl).exists_int (hquoted _ hl') hkind (hadmits.literalType_eq hkind _ hl) htext
  · obtain ⟨type, hkind, htype, hadmits⟩ := admitsAll_of_stmtAt haccepted hw
    exact ⟨type, hkind, htype, hadmits.literalType_eq hkind⟩

/-- The arms of a statement, if it is a switch. -/
def Stmt.arms : Stmt → List SwitchArm
  | .switch _ _ arms => arms
  | _ => []

/-- Whether a text is an accepted program that has a switch with given labels in a method. -/
def acceptsLabels (source : String) (labels : List Literal) : Bool :=
  (Program.ofText source).toOption.any fun p =>
    (({} : Analyzer).analyze p).1.isEmpty && p.methods.any fun d =>
      d.body.stmts.any fun s => SwitchArm.literals s.arms = labels

lemma exists_of_acceptsLabels {source : String} {labels : List Literal} (hlabels : labels ≠ [])
    (h : acceptsLabels source labels = true) :
    ∃ p line e arms, Program.ofText source = .ok p ∧ (({} : Analyzer).analyze p).1 = [] ∧
      p.Contains (.switch line e arms) ∧ SwitchArm.literals arms = labels := by
  unfold acceptsLabels at h
  cases hparsed : Program.ofText source with
  | error e =>
    rw [hparsed] at h
    cases h
  | ok p =>
    rw [hparsed] at h
    obtain ⟨haccepted, hmethods⟩ := Bool.and_eq_true_iff.1 h
    obtain ⟨d, hd, hstmts⟩ := List.any_eq_true.1 hmethods
    obtain ⟨s, hs, hfound⟩ := List.any_eq_true.1 hstmts
    have hfound := of_decide_eq_true hfound
    cases s with
    | switch line e arms =>
      exact ⟨p, line, e, arms, rfl, List.isEmpty_iff.1 haccepted, ⟨d, hd, _, hs, .refl⟩, hfound⟩
    | _ => exact absurd hfound.symm hlabels

/-- A switch over characters with a default. -/
def lettersSource : String :=
  "public class A \x7b void f(char c) \x7b switch (c) \x7b case 'a': case 'b': default: \x7d \x7d \x7d"

/-- Its condition has the type of its labels. -/
theorem Program.labels_of_switch_letters :
    ∃ p line e arms, Program.ofText lettersSource = .ok p ∧
      (({} : Analyzer).analyze p).1 = [] ∧ p.Contains (.switch line e arms) ∧
      SwitchArm.literals arms = [⟨.char "a", "'a'"⟩, ⟨.char "b", "'b'"⟩] ∧
      arms.countP (fun arm => arm.label?.isNone) ≤ 1 ∧
      (∃ w, p.StmtAt (({} : Analyzer).analyze p).2.scopes (w, .switch line e arms) ∧
        Typing.typeOf w.scopes e = .ok .char) := by
  have hcheck : acceptsLabels lettersSource [⟨.char "a", "'a'"⟩, ⟨.char "b", "'b'"⟩] = true := by
    decide +kernel
  obtain ⟨p, line, e, arms, hparsed, haccepted, hswitch, hliterals⟩ :=
    exists_of_acceptsLabels (by simp) hcheck
  obtain ⟨hdefault, -, -, ⟨w, hw⟩, hsites⟩ :=
    labels_of_switch {} lettersSource p hparsed haccepted line e arms hswitch
  obtain ⟨type, -, htype, hlabels⟩ := hsites w hw
  rw [hliterals] at hlabels
  obtain rfl : .char = type := hlabels _ List.mem_cons_self
  exact ⟨p, line, e, arms, hparsed, haccepted, hswitch, hliterals, hdefault, w, hw, htype⟩

/-- A switch with three labels for one integer. -/
def respelledSource : String :=
  "public class A \x7b void g(int x) \x7b switch (x) \x7b case 1: case 01: case +1: \x7d \x7d \x7d"

/-- **Labels with one value.** They have different texts, so the program is accepted. -/
theorem Program.exists_labels_of_one_value :
    ∃ p line e arms, Program.ofText respelledSource = .ok p ∧
      (({} : Analyzer).analyze p).1 = [] ∧ p.Contains (.switch line e arms) ∧
      SwitchArm.literals arms = [⟨.int 1, "1"⟩, ⟨.int 1, "01"⟩, ⟨.int 1, "+1"⟩] :=
  exists_of_acceptsLabels (by simp) (by decide +kernel)

end ClassLang
