import ClassLang.Proofs.Target.ScopedCode
import ClassLang.Proofs.Target.Skeleton

set_option autoImplicit false

/-!
# The text of scoped code

The text of a program has the names of its code in their order, and each scope of the code goes from
a bracket to a closing brace: the parentheses of the parameters of a function or of the clauses of a
`for` loop, or an opening brace.

## Main definitions

* `ClassLang.Target.Spelled` — the texts of an expression at a place have its names.
* `ClassLang.Target.Prints` — lines have the names and scopes of code.

## Main results

* `ClassLang.Target.spells_render` — the texts of an expression have its mentions.
* `ClassLang.Target.Site.prints_stmtLines` — the lines of a statement have its names and scopes.
* `ClassLang.Program.spells_code` — the text of a program has its names and scopes.
-/

namespace ClassLang

namespace Target

/-! ## Texts one after the other -/

variable {s t text : String} {code more : List Code}

lemma Spells.followed (h : Spells s code) (t : String) : Spells (s ++ t) code := by
  simpa using h.append (.plain t)

lemma Spells.led (s : String) (h : Spells t code) : Spells (s ++ t) code :=
  (Spells.plain s).append h

/-- Texts one after the other. -/
inductive SpellsEach : List String → List Code → Prop where
  | nil : SpellsEach [] []
  | cons {s : String} {ss : List String} {code more : List Code} (h : Spells s code)
      (hs : SpellsEach ss more) : SpellsEach (s :: ss) (code ++ more)

namespace SpellsEach

variable {ss ts : List String}

lemma singleton (h : Spells s code) : SpellsEach [s] code := by
  simpa using cons h nil

lemma append (hs : SpellsEach ss code) (ht : SpellsEach ts more) :
    SpellsEach (ss ++ ts) (code ++ more) := by
  induction hs with
  | nil => exact ht
  | cons h _ ih => simpa using cons h ih

lemma map {f : String → String} (hf : ∀ {s code}, Spells s code → Spells (f s) code)
    (hs : SpellsEach ss code) : SpellsEach (ss.map f) code := by
  induction hs with
  | nil => exact nil
  | cons h _ ih => exact cons (hf h) ih

lemma join (hs : SpellsEach ss code) : Spells (String.join ss) code := by
  induction hs with
  | nil => exact .plain _
  | cons h _ ih =>
    rw [String.join_cons]
    exact h.append ih

lemma intercalate (hs : SpellsEach ss code) (sep : String) :
    Spells (sep.intercalate ss) code := by
  induction hs with
  | nil => exact .plain _
  | cons h hrest ih =>
    cases hrest with
    | nil => simpa using h
    | cons h' hrest =>
      rw [String.intercalate_cons_cons]
      exact (h.followed sep).append ih

end SpellsEach

/-! ## Texts of expressions -/

open Emit (Gives gives_pure gives_throw gives_trivial)

variable {w : Site} {env : Env} {e : Expr} {place : Place}

lemma gives_spells_numberText (h : Spells text code) (digits : Nat) :
    Gives (numberText text digits) (Spells · code) :=
  (gives_trivial _).bind fun _ _ =>
    gives_pure ((((h.led _).followed _).followed _).followed _)

lemma gives_spells_stringText (htext : Spells text code) (hbare : Spells (bare e text) code) :
    Gives (stringText env e text) (Spells · code) := by
  unfold stringText
  split
  · exact gives_pure hbare
  · exact gives_pure ((hbare.led _).followed _)
  · exact gives_pure (((htext.followed _).led _).followed _)
  · exact gives_spells_numberText hbare _
  · exact gives_spells_numberText hbare _
  · exact gives_pure ((hbare.led _).followed _)

lemma gives_spells_printedText (htext : Spells text code) (hbare : Spells (bare e text) code) :
    Gives (printedText env e text) (Spells · code) := by
  unfold printedText
  split
  · exact gives_pure (((htext.followed _).led _).followed _)
  · exact gives_spells_numberText hbare _
  · exact gives_spells_numberText hbare _
  · exact gives_pure htext

/-- The texts that an expression is written as at a place have its names. Where the expression
stands alone there is one text, which has them without its parentheses too. -/
structure Spelled (e : Expr) (place : Place) (code : List Code) (parts : List String) : Prop where
  each : SpellsEach parts code
  alone : place = .alone → ∃ text, parts = [text] ∧ Spells (bare e text) code

lemma gives_spelled_fit (htext : Spells text code) (hbare : Spells (bare e text) code)
    (place : Place) : Gives (do return [← place.fit env e text]) (Spelled e place code) := by
  cases place with
  | alone =>
    exact (gives_pure rfl : Gives (pure text) (· = text)).bind fun _ h => gives_pure
      ⟨by simpa [h] using SpellsEach.singleton htext, fun _ => ⟨text, by rw [h], hbare⟩⟩
  | summand first =>
    have hfit : Gives ((Place.summand first).fit env e text) (Spells · code) :=
      .ite (fun _ => gives_pure ((htext.led _).followed _))
        fun _ => gives_spells_stringText htext hbare
    exact hfit.bind fun _ h => gives_pure ⟨.singleton h, nofun⟩
  | printed =>
    exact (gives_spells_printedText htext hbare).bind fun _ h =>
      gives_pure ⟨.singleton h, nofun⟩

/-- The same for a text without parentheses around it. -/
lemma gives_spelled_of_bare_eq (htext : Spells text code) (hbare : bare e text = text)
    (place : Place) : Gives (do return [← place.fit env e text]) (Spelled e place code) :=
  gives_spelled_fit htext (hbare.symm ▸ htext) place

/-- The same for an operation in parentheses. -/
lemma gives_spelled_parens {line : Nat} {op : BinaryOp} {left right : Expr}
    (hop : op.isAssignment = false) (hs : Spells s code) (htext : text = "(" ++ s ++ ")")
    (place : Place) : Gives (do return [← place.fit env (.binary line op left right) text])
      (Spelled (.binary line op left right) place code) := by
  subst htext
  refine gives_spelled_fit ((hs.led _).followed _) ?_ place
  have hbare : bare (.binary line op left right) ("(" ++ s ++ ")") = s := by
    cases op with
    | assign op => cases hop
    | _ => exact unwrap_parens_text s
  rwa [hbare]

/-- The one text of an expression that stands alone. -/
lemma Spelled.join {parts : List String} (h : Spelled e .alone code parts) :
    Spells (String.join parts) code ∧ Spells (bare e (String.join parts)) code := by
  refine ⟨h.each.join, ?_⟩
  obtain ⟨text, rfl, hbare⟩ := h.alone rfl
  rwa [String.join_cons, String.join_nil, String.append_empty]

/-- A sum of strings at a place. -/
lemma Spelled.gather {line : Nat} {left right : Expr} {lefts rights : List String}
    (hleft : Spelled left place.left code lefts)
    (hright : Spelled right place.right more rights) :
    Spelled (.binary line (.arith .add) left right) place (code ++ more)
      (place.gather (lefts ++ rights)) := by
  have hparts : SpellsEach (lefts ++ rights) (code ++ more) := hleft.each.append hright.each
  cases place with
  | alone =>
    have hsum : Spells (" + ".intercalate (lefts ++ rights)) (code ++ more) :=
      hparts.intercalate _
    refine ⟨.singleton ((hsum.led _).followed _), fun _ => ⟨_, rfl, ?_⟩⟩
    simpa [bare, unwrap_parens_text] using hsum
  | summand first => exact ⟨hparts, fun halone => by cases halone⟩
  | printed => exact ⟨hparts, fun halone => by cases halone⟩

lemma spells_unaryText (op : UnaryOp) (h : Spells text code) :
    Spells (unaryText op text) code := by
  unfold unaryText
  split
  · exact h.followed _
  · unfold prefixed
    split
    · exact (h.led _).followed _
    · exact (h.led _).followed _
    · exact h.led _

lemma spells_receiverText (h : Spells text code) : Spells (receiverText e text) code := by
  unfold receiverText
  split
  · exact (h.led _).followed _
  · exact h

/-- A target and its arguments. -/
lemma spells_memberCallText (isMap : Bool) {target name : String} {args : List String}
    (htarget : Spells target code) (hargs : SpellsEach args more) :
    Spells (memberCallText isMap target name args) (code ++ more) := by
  have hone : ∀ {arg : String}, SpellsEach [arg] more → Spells arg more := by
    intro arg h
    simpa using h.join
  unfold memberCallText
  split
  case h_1 | h_2 => exact ((htarget.followed _).append (hone hargs)).followed _
  case h_3 =>
    cases isMap with
    | true => exact ((htarget.followed _).append (hone hargs)).followed _
    | false => exact ((htarget.followed _).append (hone hargs)).followed _
  case h_4 | h_5 =>
    cases hargs with | cons hkey hrest =>
    cases hrest with | cons hvalue hnil =>
    cases hnil
    simpa using (((htarget.followed _).append hkey).followed _).append hvalue
  case h_6 | h_7 | h_8 =>
    cases hargs
    simpa using htarget.followed _
  case h_9 => exact (((htarget.led _).followed _).append (hone hargs)).followed _
  case h_10 => exact (((htarget.led _).followed _).append (hone hargs)).followed _
  case h_11 => exact ((htarget.followed _).append (hone hargs)).followed _
  case h_12 =>
    exact ((((htarget.followed _).followed _).followed _).append
      (hargs.intercalate _)).followed _

/-- A variable alone. -/
lemma spells_names (name : String) (isVar : Bool) :
    Spells name ((if isVar then [name] else []).map .mention) := by
  cases isVar with
  | true => exact .mention name
  | false => exact .plain name

/-- A literal `null` has no names. -/
lemma exprCode_of_isNull (w : Site) (h : isNull e = true) : w.exprCode e = [] := by
  cases e with
  | literal => rfl
  | _ => cases h

lemma spells_printText {items : List String} {last : String} (h : SpellsEach items code) :
    Spells (printText items last) code :=
  ((h.map fun h => h.led _).join.led _).followed _

mutual

/-- **The texts of an expression have its mentions.** -/
theorem spells_render (w : Site) : (e : Expr) → ∀ place : Place,
    Gives (render w.env place e) (Spelled e place (w.exprCode e))
  | .literal line l, place => by
    rw [render]
    exact (gives_trivial _).bind fun text _ =>
      gives_spelled_of_bare_eq (.plain text) (by rfl) place
  | .var line name, place => by
    rw [render, Site.exprCode, Site.mentions]
    exact gives_spelled_of_bare_eq (spells_names name _) (by rfl) place
  | .binary line op left right, place => by
    rw [render, Site.exprCode, Site.mentions, List.map_append]
    refine .ite (fun hsum => ?_) fun _ => ?_
    · obtain ⟨rfl, -⟩ : op = .arith .add ∧ _ := by simpa using hsum
      exact (spells_render w left place.left).bind fun lefts hlefts =>
        (spells_render w right place.right).bind fun rights hrights =>
          gives_pure (hlefts.gather hrights)
    · refine (spells_render w left .alone).bind fun lefts hlefts => ?_
      refine (spells_render w right .alone).bind fun rights hrights => ?_
      obtain ⟨hl, -⟩ := hlefts.join
      obtain ⟨hr, hbare⟩ := hrights.join
      have hassign : ∀ {arith : Arith} {text : String},
          Spells text (w.exprCode left ++ w.exprCode right) → Gives (do
            return [← place.fit w.env (.binary line (.assign arith) left right) text])
            (Spelled (.binary line (.assign arith) left right) place
              (w.exprCode left ++ w.exprCode right)) :=
        fun htext => gives_spelled_of_bare_eq htext (by rfl) place
      have hparens : ∀ {op : BinaryOp} {text : String} (sign : String),
          op.isAssignment = false →
          text = "(" ++ (String.join lefts ++ sign ++ String.join rights) ++ ")" → Gives (do
            return [← place.fit w.env (.binary line op left right) text])
            (Spelled (.binary line op left right) place (w.exprCode left ++ w.exprCode right)) :=
        fun sign hop htext => gives_spelled_parens hop ((hl.followed sign).append hr) htext place
      have hsign : ∀ op : BinaryOp,
          "(" ++ String.join lefts ++ " " ++ op.text ++ " " ++ String.join rights ++ ")" =
            "(" ++ (String.join lefts ++ (" " ++ op.text ++ " ") ++ String.join rights) ++ ")" := by
        intro op
        simp only [String.append_assoc]
      cases op with
      | assign arith =>
        cases arith with
        | add =>
          exact .ite
            (fun _ => (gives_spells_stringText hr hbare).bind fun v hv =>
              hassign ((hl.followed _).append hv))
            fun _ => (gives_pure (Q := (Spells · (w.exprCode right))) hbare).bind fun v hv =>
              hassign ((hl.followed _).append hv)
        | _ => exact hassign ((((hl.followed _).followed _).followed _).append hbare)
      | arith arith =>
        cases arith with
        | mod =>
          refine .ite (fun _ => (gives_trivial _).bind fun _ _ => ?_) fun _ => ?_
          · have htext := (((hl.led "std::fmod(").followed ", ").append hr).followed ")"
            refine gives_spelled_of_bare_eq htext ?_ place
            refine unwrap_eq_self ?_
            simp only [String.toList_append]
            rintro ⟨⟩
          · exact hparens " % " rfl (by simp only [String.append_assoc])
        | _ => exact hparens _ rfl (hsign _)
      | _ => exact hparens _ rfl (hsign _)
  | .unary line op operand, place => by
    rw [render]
    exact (spells_render w operand .alone).bind fun parts hparts =>
      gives_spelled_of_bare_eq (spells_unaryText op hparts.join.1) (by rfl) place
  | .call line name args, place => by
    rw [render]
    exact (spells_renderAll w args).bind fun texts htexts =>
      gives_spelled_of_bare_eq (((htexts.intercalate _).led _).followed _) (by rfl) place
  | .methodCall line receiver name args, place => by
    rw [render, Site.exprCode, Site.mentions]
    split
    · refine (gives_trivial _).bind fun last _ => ?_
      have hprint : ∀ items, SpellsEach items ((w.mentionsFirst args).map .mention) → Gives (do
            return [← place.fit w.env (.methodCall line receiver name args) (printText items last)])
            (Spelled (.methodCall line receiver name args) place
              ((w.mentionsFirst args).map .mention)) := fun items hitems =>
        gives_spelled_of_bare_eq (spells_printText hitems) (by rfl) place
      match args with
      | [] => exact (gives_pure (Q := (SpellsEach · [])) .nil).bind hprint
      | arg :: _ =>
        exact (spells_render w arg .printed).bind fun items hitems => hprint items hitems.each
    · split
      · exact (spells_renderAll w args).bind fun texts htexts =>
          gives_spelled_of_bare_eq (((htexts.intercalate _).led _).followed _) (by rfl) place
      · rw [List.map_append]
        refine (spells_render w receiver .alone).bind fun parts hparts => ?_
        refine (spells_renderAll w args).bind fun texts htexts => ?_
        have htarget := spells_receiverText (e := receiver) hparts.join.1
        exact gives_spelled_of_bare_eq (spells_memberCallText _ htarget htexts) (by rfl) place
  | .index line array key, place => by
    rw [render, Site.exprCode, Site.mentions, List.map_append]
    refine (spells_render w array .alone).bind fun arrays harrays => ?_
    refine (spells_render w key .alone).bind fun keys hkeys => ?_
    exact gives_spelled_of_bare_eq (((harrays.join.1.followed _).append hkeys.join.2).followed _)
      (by rfl) place
  | .field line object name, place => by
    rw [render, Site.exprCode, Site.mentions]
    split
    · exact gives_spelled_of_bare_eq (spells_names name _) (by rfl) place
    · refine (spells_render w object .alone).bind fun parts hparts => ?_
      have hobject := spells_receiverText (e := object) hparts.join.1
      exact gives_spelled_of_bare_eq ((hobject.followed _).followed _) (by rfl) place
  | .newObject line type diamond, place => by
    rw [render]
    have hfit : ∀ text, Gives (do
        return [← place.fit w.env (.newObject line type diamond) text])
        (Spelled (.newObject line type diamond) place []) := fun text =>
      gives_spelled_of_bare_eq (.plain text) (by rfl) place
    exact .ite (fun _ => (gives_trivial _).bind fun text _ => hfit text)
      fun _ => (gives_trivial _).bind fun text _ => hfit text
  | .newArray line type size diamond, place => by
    rw [render]
    refine (gives_trivial _).bind fun t _ => ?_
    refine (spells_render w size .alone).bind fun parts hparts => ?_
    exact gives_spelled_of_bare_eq ((hparts.join.2.led _).followed _) (by rfl) place
  | .assign line target value, place => by
    rw [render, Site.exprCode, Site.mentions, List.map_append]
    refine (spells_render w target .alone).bind fun parts hparts => ?_
    have hfit : ∀ text, Spells text (w.exprCode value) → Gives (do
        return [← place.fit w.env (.assign line target value)
          (String.join parts ++ " = " ++ text)])
        (Spelled (.assign line target value) place (w.exprCode target ++ w.exprCode value)) :=
      fun text htext =>
        gives_spelled_of_bare_eq ((hparts.join.1.followed _).append htext) (by rfl) place
    split
    next hnull =>
      split at hnull
      next hisNull =>
        exact (gives_trivial _).bind fun text _ =>
          hfit text (exprCode_of_isNull w hisNull ▸ .plain text)
      next => cases hnull
    next => exact ((spells_render w value .alone).map fun _ h => h.join.2).bind hfit
  | .arrayInit line elements, place => by
    rw [render]
    exact (spells_renderAll w elements).bind fun texts htexts =>
      gives_spelled_of_bare_eq (((htexts.intercalate _).led _).followed _) (by rfl) place

theorem spells_renderAll (w : Site) : (es : List Expr) →
    Gives (renderAll w.env es) (SpellsEach · ((w.mentionsAll es).map .mention))
  | [] => gives_pure .nil
  | e :: es => by
    rw [renderAll, Site.mentionsAll, List.map_append]
    exact (spells_render w e .alone).bind fun parts hparts =>
      (spells_renderAll w es).bind fun texts htexts => gives_pure (.cons hparts.join.2 htexts)

end

lemma spells_bareText (w : Site) (e : Expr) :
    Gives (bareText w.env e) (Spells · (w.exprCode e)) := by
  refine Emit.Gives.bind (Q := fun text => Spells (bare e text) (w.exprCode e)) ?_
    fun text h => gives_pure h
  exact (spells_render w e .alone).bind fun parts h => gives_pure h.join.2

lemma spells_valueText (w : Site) (type : Option TypeExpr) (e : Expr) :
    Gives (valueText w.env type e) (Spells · (w.exprCode e)) := by
  unfold valueText
  split
  next hnull =>
    split at hnull
    next hisNull =>
      rw [exprCode_of_isNull w hisNull]
      exact (gives_trivial _).mono fun text _ => .plain text
    next => cases hnull
  next => exact spells_bareText w e

/-! ## Lines of statements -/

/-- The text of lines has the names and scopes of code. -/
def Prints (width : Nat) (lines : List Line) (code : List Code) : Prop :=
  Spells (SourceUnit.linesText width lines) code

section Lines

variable {width depth : Nat} {lines others : List Line}

lemma prints_nil : Prints width [] [] :=
  .plain _

lemma Prints.append (h : Prints width lines code) (h' : Prints width others more) :
    Prints width (lines ++ others) (code ++ more) := by
  rw [Prints, SourceUnit.linesText, List.map_append, String.join_append]
  exact Spells.append h h'

lemma prints_line (h : Spells text code) (depth : Nat) : Prints width [⟨depth, text⟩] code := by
  have hline : SourceUnit.linesText width [⟨depth, text⟩] =
      "".pushn ' ' (depth * width) ++ text ++ "\n" := by
    simp [SourceUnit.linesText, Line.render]
  rw [Prints, hline]
  exact (h.led _).followed _

/-- A scope that is opened on one line and closed on a later one. -/
lemma Prints.enclose {before bracket opened behind : String} {first head last : List Code}
    (hbracket : bracket ∈ ["(", "\x7b"]) (hbefore : Spells before first)
    (hopened : Spells opened head) (hlines : Prints width lines code)
    (hbehind : Spells behind last)
    {firstText lastText : String} (hfirst : firstText = before ++ (bracket ++ opened))
    (hlast : lastText = "\x7d" ++ behind) (depth : Nat) :
    Prints width (⟨depth, firstText⟩ :: lines ++ [⟨depth, lastText⟩])
      (first ++ ([.scope (head ++ code)] ++ last)) := by
  subst hfirst hlast
  let indent := "".pushn ' ' (depth * width)
  have htext : SourceUnit.linesText width
        (⟨depth, before ++ (bracket ++ opened)⟩ :: lines ++ [⟨depth, "\x7d" ++ behind⟩]) =
      indent ++ before ++ ((bracket ++ (opened ++ "\n" ++
        (SourceUnit.linesText width lines ++ indent)) ++ "\x7d") ++ (behind ++ "\n")) := by
    simp [SourceUnit.linesText, Line.render, indent, String.append_assoc, String.join_append]
  rw [Prints, htext]
  have hinside : Spells (opened ++ "\n" ++ (SourceUnit.linesText width lines ++ indent))
      (head ++ code) := (hopened.followed _).append (Spells.followed hlines _)
  exact (hbefore.led _).append ((Spells.scope hbracket hinside).append (hbehind.followed _))

/-- A scope in braces of its own. -/
lemma Prints.braces {before firstText : String} {first : List Code} (hbefore : Spells before first)
    (hlines : Prints width lines code) (hfirst : firstText = before ++ "\x7b") (depth : Nat) :
    Prints width (⟨depth, firstText⟩ :: lines ++ [⟨depth, "\x7d"⟩]) (first ++ [.scope code]) := by
  have hopened : firstText = before ++ ("\x7b" ++ "") := hfirst
  have h := hlines.enclose (by decide) hbefore (.plain _) (.plain "") hopened rfl depth
  simpa using h

lemma opening_eq (word head : String) :
    opening word head = word ++ " (" ++ head ++ ") " ++ "\x7b" := by
  have hbrace : ") \x7b" = ") " ++ "\x7b" := rfl
  rw [opening, hbrace]
  exact String.append_assoc.symm

/-- A branch or loop with a condition in front of its scope. -/
lemma Prints.guarded {head : String} {first : List Code} (hhead : Spells head first)
    (hlines : Prints width lines code) (word : String) (depth : Nat) :
    Prints width (⟨depth, opening word head⟩ :: lines ++ [⟨depth, "\x7d"⟩])
      (first ++ [.scope code]) :=
  hlines.braces ((hhead.led _).followed _) (opening_eq word head) depth

end Lines

lemma spells_declarationText (w : Site) (type : TypeExpr) (name : String) (init : Option Expr) :
    Gives (declarationText w.env type name init) (Spells · (w.declCode name init)) := by
  refine (gives_trivial _).bind fun t _ => ?_
  have hdeclared : Spells (t ++ " " ++ name) [.declare name] := (Spells.declare name).led _
  cases init with
  | none => exact gives_pure hdeclared
  | some value =>
    have hvalue : Gives (do
        return t ++ " " ++ name ++ " = " ++ (← valueText w.env (some type) value))
        (Spells · (w.declCode name (some value))) :=
      (spells_valueText w (some type) value).bind fun v hv =>
        gives_pure ((hdeclared.followed _).append hv)
    dsimp only
    split
    · exact gives_pure hdeclared
    · exact hvalue

lemma spells_initText (w : Site) (init : Option ForInit) :
    Gives (initText w.env init) (Spells · (w.initCode init)) := by
  rcases init with _ | d | e
  · exact gives_pure (.plain _)
  · exact spells_declarationText (w.within d) d.type d.name d.init
  · exact spells_bareText w e

lemma spells_optionalText (w : Site) (e : Option Expr) :
    Gives (optionalText w.env e) (Spells · (w.optionalCode e)) := by
  cases e with
  | none => exact gives_pure (.plain _)
  | some e => exact spells_bareText w e

lemma spells_returnText (w : Site) (value : Option Expr) :
    Gives (returnText w.env value) (Spells · (w.optionalCode value)) := by
  cases value with
  | none => exact gives_pure (.plain _)
  | some e =>
    exact (spells_valueText w _ e).bind fun v hv => gives_pure ((hv.led _).followed _)

/-- The lines of an arm below its label. -/
lemma prints_arm {width : Nat} {lines : List Line} {label : String} {body : Block}
    (hlabel : Spells label code) (hlines : Prints width lines more) (depth : Nat) :
    Gives (if body.stmts.any Stmt.isVarDecl then
        pure (⟨depth, label ++ " \x7b"⟩ :: lines ++ [⟨depth, "\x7d"⟩])
      else pure (⟨depth, label⟩ :: lines))
      (Prints width · (code ++ scopeIf (body.stmts.any Stmt.isVarDecl) more)) := by
  have hbrace : label ++ " \x7b" = label ++ " " ++ "\x7b" := by
    rw [String.append_assoc]
    rfl
  split
  next hdeclares =>
    rw [hdeclares]
    exact gives_pure (hlines.braces (hlabel.followed _) hbrace depth)
  next hdeclares =>
    rw [Bool.eq_false_iff.2 hdeclares]
    exact gives_pure ((prints_line hlabel depth).append hlines)

namespace Site

mutual

/-- **The lines of a statement have its names and scopes.** -/
theorem prints_stmtLines (width : Nat) : (s : Stmt) → ∀ (w : Site) (depth : Nat) (lead : String),
    Gives (stmtLines w.env depth lead s) (Prints width · (w.stmtCode s))
  | .varDecl d, w, depth, _ => by
    rw [stmtLines, stmtCode]
    exact (spells_declarationText (w.within d) d.type d.name d.init).bind fun t ht =>
      gives_pure (prints_line (ht.followed _) depth)
  | .block body, w, depth, _ => by
    rw [stmtLines, stmtCode]
    exact (prints_blockLines width body w (depth + 1)).bind fun lines hlines =>
      gives_pure (hlines.braces (.plain "") rfl depth)
  | .ifThen _ c thenBranch, w, depth, lead => by
    rw [stmtLines, stmtCode]
    refine (spells_bareText w c).bind fun head hhead => ?_
    exact (prints_blockLines width thenBranch w (depth + 1)).bind fun lines hlines =>
      gives_pure (hlines.guarded hhead (lead ++ "if") depth)
  | .ifElse _ c thenBranch elseBranch, w, depth, lead => by
    rw [stmtLines, stmtCode, ← List.append_assoc]
    refine (spells_bareText w c).bind fun head hhead => ?_
    refine (prints_blockLines width thenBranch w (depth + 1)).bind fun lines hlines => ?_
    exact (prints_elseLines width elseBranch w depth).bind fun others hothers =>
      gives_pure ((hlines.guarded hhead (lead ++ "if") depth).append hothers)
  | .whileLoop _ c body, w, depth, _ => by
    rw [stmtLines, stmtCode]
    refine (spells_bareText w c).bind fun head hhead => ?_
    exact (prints_blockLines width body w (depth + 1)).bind fun lines hlines =>
      gives_pure (hlines.guarded hhead "while" depth)
  | .doWhile _ body c, w, depth, _ => by
    rw [stmtLines, stmtCode]
    refine (prints_blockLines width body w (depth + 1)).bind fun lines hlines => ?_
    refine (spells_bareText w c).bind fun last hlast => gives_pure ?_
    have hclosing : "\x7d while (" ++ last ++ ");" = "\x7d" ++ (" while (" ++ last ++ ");") := by
      rw [← String.append_assoc, ← String.append_assoc]
      rfl
    have hopening : "do \x7b" = "do " ++ ("\x7b" ++ "") := rfl
    exact hlines.enclose (by decide) (.plain _) (.plain _) ((hlast.led _).followed _) hopening
      hclosing depth
  | .forLoop _ init c update body, w, depth, _ => by
    rw [stmtLines, stmtCode]
    refine (spells_initText w.push init).bind fun first hfirst => ?_
    have henv : w.env.push.afterInit init = (w.push.afterInit init).env :=
      (env_afterInit w.push init).symm
    rw [henv]
    refine (spells_optionalText (w.push.afterInit init) c).bind fun second hsecond => ?_
    refine (spells_optionalText (w.push.afterInit init) update).bind fun third hthird => ?_
    refine (prints_blockLines width body _ (depth + 1)).bind fun lines hlines => gives_pure ?_
    have hclauses :=
      ((((hfirst.followed "; ").append hsecond).followed "; ").append hthird).followed ") \x7b"
    have hopening : opening "for" (first ++ "; " ++ second ++ "; " ++ third) =
        "for " ++ ("(" ++ (first ++ "; " ++ second ++ "; " ++ third ++ ") \x7b")) := by
      rw [← String.append_assoc, ← String.append_assoc]
      rfl
    have hloop := hlines.enclose (by decide) (.plain "for ") hclauses (.plain "") hopening rfl depth
    simpa using hloop
  | .switch _ c arms, w, depth, _ => by
    rw [stmtLines, stmtCode]
    refine (spells_bareText w c).bind fun head hhead => ?_
    exact (prints_armsLines width arms w depth).bind fun lines hlines =>
      gives_pure (hlines.guarded hhead "switch" depth)
  | .ret _ value, w, depth, _ => by
    rw [stmtLines, stmtCode]
    exact (spells_returnText w value).bind fun t ht => gives_pure (prints_line ht depth)
  | .expr e, w, depth, _ => by
    rw [stmtLines, stmtCode]
    exact (spells_bareText w e).bind fun t ht => gives_pure (prints_line (ht.followed _) depth)
  | .breakOff _, _, depth, _ | .continueOn _, _, depth, _ =>
    gives_pure (prints_line (.plain _) depth)

theorem prints_elseLines (width : Nat) : (body : Block) → ∀ (w : Site) (depth : Nat),
    Gives (elseLines w.env depth body) (Prints width · (w.elseCode body))
  | .mk _ [], w, depth => gives_pure (prints_nil.braces (.plain "else ") rfl depth)
  | .mk _ [s], w, depth => by
    simp only [elseLines, elseCode, stmtsCode, List.append_nil, joinsElse, Site.otherwise]
    split
    next hbranch =>
      rw [hbranch]
      exact prints_stmtLines width s { w.push with env := w.env } depth "else "
    next hbranch =>
      rw [Bool.eq_false_iff.2 hbranch]
      exact (prints_stmtLines width s w.push (depth + 1) "").bind fun lines hlines =>
        gives_pure (hlines.braces (.plain "else ") rfl depth)
  | .mk _ (s :: s' :: ss), w, depth =>
    (prints_stmtsLines width (s :: s' :: ss) w.push (depth + 1)).bind fun lines hlines =>
      gives_pure (hlines.braces (.plain "else ") rfl depth)

theorem prints_stmtsLines (width : Nat) : (ss : List Stmt) → ∀ (w : Site) (depth : Nat),
    Gives (stmtsLines w.env depth ss) (Prints width · (w.stmtsCode ss))
  | [], _, _ => gives_pure prints_nil
  | s :: ss, w, depth => by
    rw [stmtsLines, stmtsCode, ← env_after]
    exact (prints_stmtLines width s w depth "").bind fun lines hlines =>
      (prints_stmtsLines width ss (w.after s) depth).bind fun more hmore =>
        gives_pure (hlines.append hmore)

theorem prints_blockLines (width : Nat) : (body : Block) → ∀ (w : Site) (depth : Nat),
    Gives (blockLines w.env depth body) (Prints width · (w.blockCode body))
  | .mk _ ss, w, depth => prints_stmtsLines width ss w.push depth

theorem prints_armLines (width : Nat) : (arm : SwitchArm) → ∀ (w : Site) (depth : Nat),
    Gives (armLines w.env depth arm) (Prints width · (w.armCode arm))
  | .labelled line label body, w, depth => by
    rw [armLines, armCode]
    have hlabel : Gives (labelText w.env (.labelled line label body))
        (Spells · (w.exprCode label)) :=
      (spells_bareText w label).bind fun t ht => gives_pure ((ht.led _).followed _)
    exact hlabel.bind fun text htext =>
      (prints_blockLines width body w (depth + 1)).bind fun lines hlines =>
        prints_arm htext hlines depth
  | .otherwise _ body, w, depth => by
    rw [armLines, armCode]
    exact (gives_trivial _).bind fun text _ =>
      (prints_blockLines width body w (depth + 1)).bind fun lines hlines =>
        prints_arm (.plain text) hlines depth

theorem prints_armsLines (width : Nat) : (arms : List SwitchArm) → ∀ (w : Site) (depth : Nat),
    Gives (armsLines w.env depth arms) (Prints width · (w.armsCode arms))
  | [], _, _ => gives_pure prints_nil
  | arm :: arms, w, depth => by
    rw [armsLines, armsCode]
    exact (prints_armLines width arm w depth).bind fun lines hlines =>
      (prints_armsLines width arms w depth).bind fun more hmore =>
        gives_pure (hlines.append hmore)

end

end Site

/-! ## Functions -/

lemma spells_parameterTexts (ps : List Parameter) :
    Gives (parameterTexts ps) (SpellsEach · (ps.map fun q => .declare q.name)) := by
  induction ps with
  | nil => exact gives_pure .nil
  | cons q ps ih =>
    have hparameter : Gives (parameterText q) (Spells · [.declare q.name]) := by
      refine (gives_trivial _).bind fun type _ => .ite (fun _ => ?_) fun _ => ?_
      · exact gives_pure ((Spells.declare q.name).led _)
      · exact gives_pure ((Spells.declare q.name).led _)
    exact hparameter.bind fun text htext => ih.bind fun texts htexts =>
      gives_pure (SpellsEach.cons htext htexts)

/-- The head of a function declares its parameters in parentheses. -/
lemma gives_spells_signatureText (d : MethodDecl) :
    Gives (signatureText d) fun text => ∃ head params, text = head ++ ("(" ++ params) ∧
      Spells params ((functionParams d).map .declare) := by
  unfold signatureText functionParams
  refine .ite (fun hmain => ?_) fun hother => ?_
  · rw [if_pos hmain]
    have hparams : Spells ("int " ++ "argc" ++ ", char* " ++ "argv" ++ "[])")
        [.declare "argc", .declare "argv"] :=
      ((((Spells.declare "argc").led _).followed _).append (.declare "argv")).followed _
    exact gives_pure ⟨"int main", _, rfl, hparams⟩
  · rw [if_neg hother, List.map_map]
    refine (gives_trivial _).bind fun result _ => ?_
    refine (spells_parameterTexts d.params).bind fun params hparams => gives_pure ?_
    refine ⟨result ++ " " ++ d.name, ", ".intercalate params ++ ")", ?_,
      (hparams.intercalate _).followed _⟩
    simp only [String.append_assoc]

lemma prints_functionLines (width : Nat) (w : Site) (d : MethodDecl) :
    Gives (functionLines w.env d) (Prints width · [.scope (w.functionCode d)]) := by
  refine (gives_spells_signatureText d).bind fun signature hsignature => ?_
  obtain ⟨head, params, hhead, hparams⟩ := hsignature
  refine (Site.prints_stmtsLines width d.body.stmts (w.enter d) 1).bind fun lines hlines => ?_
  have hbody : Prints width (⟨0, "\x7b"⟩ :: lines) ((w.enter d).stmtsCode d.body.stmts) :=
    (prints_line (.plain _) 0).append hlines
  have hfunction := hbody.enclose (by decide) (.plain head) hparams (.plain "") hhead rfl 0
  exact gives_pure (by simpa [Site.functionCode] using hfunction)

/-! ## Source files -/

lemma prints_globalLines (width : Nat) {env : Env} {fs : List (Site × FieldDecl)}
    (hfs : ∀ f ∈ fs, f.1.env = env) :
    Gives (globalLines env (fs.map Prod.snd))
      (Prints width · (fs.flatMap fun f => f.1.declCode f.2.name f.2.init)) := by
  induction fs with
  | nil => exact gives_pure prints_nil
  | cons f fs ih =>
    obtain ⟨rfl, hrest⟩ := List.forall_mem_cons.1 hfs
    refine (spells_declarationText f.1 f.2.type f.2.name f.2.init).bind fun text htext => ?_
    exact (ih hrest).bind fun lines hlines =>
      gives_pure ((prints_line (htext.followed _) 0).append hlines)

/-- Groups of lines, each with a scope of its own. -/
abbrev PrintsFunctions (width : Nat) (groups : List (List Line)) (bodies : List (List Code)) :
    Prop :=
  List.Forall₂ (fun lines body => Prints width lines [.scope body]) groups bodies

lemma prints_functionsLines (width : Nat) {env : Env} {fs : List (Site × MethodDecl)}
    (hfs : ∀ f ∈ fs, f.1.env = env) :
    Gives (functionsLines env (fs.map Prod.snd))
      (PrintsFunctions width · (fs.map fun f => f.1.functionCode f.2)) := by
  induction fs with
  | nil => exact gives_pure .nil
  | cons f fs ih =>
    obtain ⟨rfl, hrest⟩ := List.forall_mem_cons.1 hfs
    exact (prints_functionLines width f.1 f.2).bind fun lines hlines =>
      (ih hrest).bind fun groups hgroups => gives_pure (.cons hlines hgroups)

lemma Prints.paragraph {width : Nat} {lines : List Line} {code : List Code}
    (h : Prints width lines code) : Prints width (SourceUnit.paragraph lines) code := by
  unfold SourceUnit.paragraph
  split
  next hempty => rwa [List.isEmpty_iff.1 hempty] at h
  next => simpa using h.append (prints_line (.plain "") 0)

lemma PrintsFunctions.spaced {width : Nat} {groups : List (List Line)} {bodies : List (List Code)}
    (h : PrintsFunctions width groups bodies) :
    Prints width (SourceUnit.spaced groups) (bodies.map .scope) := by
  induction h with
  | nil => exact prints_nil
  | cons hlines hrest ih =>
    cases hrest with
    | nil => exact hlines
    | cons =>
      have hblank := (prints_line (.plain "") 0).append ih
      exact hlines.append hblank

end Target

open Target

/-- **The text of a program has its names and scopes.** -/
theorem Program.spells_code {p : Program} {layout : Layout} {text : String}
    (hgenerated : p.generate layout = .ok text) (s : Scopes) : Spells text (p.code s) := by
  obtain ⟨u, hunit, rfl⟩ := exists_unit_of_generate hgenerated
  have hfields := prints_globalLines layout.indentWidth fun f
    (hf : f ∈ p.sited s ClassDecl.fields) => env_of_mem_sited hf
  have hmethods := prints_functionsLines layout.indentWidth fun f
    (hf : f ∈ p.sited s ClassDecl.methods) => env_of_mem_sited hf
  rw [map_sited] at hfields hmethods
  obtain ⟨hglobals, -, hfunctions⟩ := SourceUnit.parts_of_ofProgram hfields
    (Emit.gives_trivial _) trivial hmethods hunit
  have hcode : p.code s = p.globalCode s ++ [] ++
      ((p.sited s ClassDecl.methods).map fun f => f.1.functionCode f.2).map .scope := by
    simp [code, functionCodes, Function.comp_def]
  rw [u.text_eq_append, hcode]
  have hheads : Prints layout.indentWidth (SourceUnit.paragraph u.prototypes) [] := .plain _
  exact Spells.led _ ((hglobals.paragraph.append hheads).append hfunctions.spaced)

end ClassLang
