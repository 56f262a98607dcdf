import ClassLang.Proofs.Target.LineStarts

set_option autoImplicit false

/-!
# How expressions start in generated code

The text of an expression starts with no head, although members may be named after keywords: what
follows a name is an operator, a dot or a bracket without a space before it. Nor is there a line
feed in the text, unless one comes from a literal. Both go for each text that an expression is
written as, at whatever place, and for the text without its parentheses.

## Main definitions

* `ClassLang.Target.printable` — the leaves that expressions are written with.
* `ClassLang.Target.Written` — what an expression is written as at a place.

## Main results

* `ClassLang.Target.gives_fit` — the text of an expression alone makes it fit every place.
* `ClassLang.Target.gives_render` — the texts of expressions start with no head.
* `ClassLang.Target.gives_bareText`, `ClassLang.Target.gives_valueText` — the same of the texts that
  statements are made of.
-/

namespace ClassLang.Target

open Emit (Gives gives_pure gives_throw gives_trivial)

/-- Names without spaces, numbers, and literals on one line. -/
abbrev printable : Leaves := Leaves.shapely.and Leaves.unbroken

variable {env : Env} {e : Expr} {place : Place} {s t text : String}

lemma headless_of_name (h : printable.name s) : Headless s :=
  headless_of_blankless h.1.1 h.1.2.1 h.1.2.2

/-- A text in brackets or behind other fixed characters is clear. -/
lemma clear_append (hs : isClear s = true) (ht : OneLine t) : Clear (s ++ t) :=
  (clear_of_isClear hs).append ht

lemma gives_numberText {digits : Nat} (htext : OneLine text) (hdigits : OneLine (toString digits)) :
    Gives (numberText text digits) Clear := by
  refine (gives_trivial _).bind fun _ _ => gives_pure ?_
  refine Clear.append (Clear.append (Clear.append (Clear.append ?_ htext) ?_) hdigits) ?_
  · exact clear_of_isClear (by decide)
  · decide
  · decide

lemma oneLine_truthText (htext : OneLine text) : OneLine (truthText text) :=
  oneLine_append_iff.2 ⟨htext, by decide⟩

lemma gives_stringText (htext : OneLine text) (hbare : Headless (bare e text)) :
    Gives (stringText env e text) Headless := by
  unfold stringText
  split
  · exact gives_pure hbare
  · exact gives_pure
      ((clear_append (by decide) hbare.oneLine).append (by decide)).headless
  · exact gives_pure
      ((clear_append (by decide) (oneLine_truthText htext)).append (by decide)).headless
  · exact (gives_numberText hbare.oneLine (by decide)).mono fun _ => Clear.headless
  · exact (gives_numberText hbare.oneLine (by decide)).mono fun _ => Clear.headless
  · exact gives_pure ((clear_append (by decide) hbare.oneLine).append (by decide)).headless

lemma gives_printedText (htext : Headless text) (hbare : Headless (bare e text)) :
    Gives (printedText env e text) Headless := by
  unfold printedText
  split
  · exact gives_pure
      ((clear_append (by decide) (oneLine_truthText htext.oneLine)).append (by decide)).headless
  · exact (gives_numberText hbare.oneLine (by decide)).mono fun _ => Clear.headless
  · exact (gives_numberText hbare.oneLine (by decide)).mono fun _ => Clear.headless
  · exact gives_pure htext

/-- What an expression is written as at a place: texts that start with no head, of which there is
only one where the expression stands alone, and that one starts with no head without its parentheses
either. -/
structure Written (e : Expr) (place : Place) (parts : List String) : Prop where
  headless : ∀ part ∈ parts, Headless part
  ne_nil : parts ≠ []
  alone : place = .alone → ∃ text, parts = [text] ∧ Headless (bare e text)

/-- The text of an expression alone makes it fit every place. -/
lemma gives_fit (htext : Headless text) (hbare : Headless (bare e text)) (place : Place) :
    Gives (do return [← place.fit env e text]) (Written e place) := by
  cases place with
  | alone =>
    exact (gives_pure rfl : Gives (pure text) (· = text)).bind fun _ h => gives_pure
      ⟨by simpa [h] using htext, by simp, fun _ => ⟨text, by rw [h], hbare⟩⟩
  | summand first =>
    have hfit : Gives ((Place.summand first).fit env e text) Headless := by
      refine .ite (fun _ => gives_pure ?_) fun _ => gives_stringText htext.oneLine hbare
      exact ((clear_append (by decide) htext.oneLine).append (by decide)).headless
    exact hfit.bind fun _ h => gives_pure ⟨by simpa using h, by simp, fun h => nomatch h⟩
  | printed =>
    exact (gives_printedText htext hbare).bind fun _ h =>
      gives_pure ⟨by simpa using h, by simp, fun h => nomatch h⟩

/-- The same for a text without parentheses around it. -/
lemma gives_fit_of_bare_eq (htext : Headless text) (hbare : bare e text = text) (place : Place) :
    Gives (do return [← place.fit env e text]) (Written e place) :=
  gives_fit htext (hbare.symm ▸ htext) place

/-- The one text of an expression that stands alone. -/
lemma Written.join {parts : List String} (h : Written e .alone parts) :
    Headless (String.join parts) ∧ Headless (bare e (String.join parts)) := by
  obtain ⟨text, rfl, hbare⟩ := h.alone rfl
  rw [String.join_cons, String.join_nil, String.append_empty]
  exact ⟨h.headless text (by simp), hbare⟩

lemma unwrap_parens_text (s : String) : unwrap ("(" ++ s ++ ")") = s := by
  have hchars : ("(" ++ s ++ ")").toList = '(' :: (s.toList ++ [')']) := by simp
  rw [unwrap, hchars]
  simp

lemma unwrap_eq_self (h : s.toList.head? ≠ some '(') : unwrap s = s := by
  unfold unwrap
  split
  next hs => exact absurd (by rw [hs, List.head?_cons]) h
  next => rfl

/-- Texts with decisive separators between them start with no head. -/
lemma headless_intercalate {sep : String} (hsep : OneLine sep)
    (hdecisive : decisive sep.toList = true) {parts : List String} (hne : parts ≠ [])
    (h : ∀ part ∈ parts, Headless part) : Headless (sep.intercalate parts) := by
  match parts, hne, h with
  | [part], _, h => simpa using h
  | first :: second :: rest, _, h =>
    obtain ⟨hfirst, hrest⟩ := List.forall_mem_cons.1 h
    rw [String.intercalate_cons_cons]
    exact ((hfirst.append hsep hdecisive).append
      (oneLine_intercalate hsep fun part hpart => (hrest part hpart).oneLine)).headless

/-- A sum of strings at a place. -/
lemma Written.gather {line : Nat} {left right : Expr} {lefts rights : List String}
    (hleft : Written left place.left lefts) (hright : Written right place.right rights) :
    Written (.binary line (.arith .add) left right) place (place.gather (lefts ++ rights)) := by
  have hparts : ∀ part ∈ lefts ++ rights, Headless part :=
    List.forall_mem_append.2 ⟨hleft.headless, hright.headless⟩
  have hne : lefts ++ rights ≠ [] := by simp [hleft.ne_nil]
  cases place with
  | alone =>
    have hsum : Headless (" + ".intercalate (lefts ++ rights)) :=
      headless_intercalate (by decide) (by decide) hne hparts
    have hparens : Clear ("(" ++ " + ".intercalate (lefts ++ rights) ++ ")") :=
      (clear_append (by decide) hsum.oneLine).append (by decide)
    refine ⟨by simpa [Place.gather] using hparens.headless, by simp [Place.gather], fun _ => ?_⟩
    exact ⟨_, rfl, by simpa [bare, unwrap_parens_text] using hsum⟩
  | summand first => exact ⟨hparts, hne, fun h => nomatch h⟩
  | printed => exact ⟨hparts, hne, fun h => nomatch h⟩

/-- A text with an operator behind it. -/
lemma Headless.operator {l op : String} (hl : Headless l) (hop : OneLine op)
    (hdecisive : decisive (" " ++ op).toList = true) : Clear (l ++ " " ++ op) := by
  have hassoc : l ++ " " ++ op = l ++ (" " ++ op) := String.append_assoc
  rw [hassoc]
  exact hl.append (oneLine_append_iff.2 ⟨by decide, hop⟩) hdecisive

/-- The text of an operation without its parentheses. -/
lemma Headless.operation {l r : String} (hl : Headless l) (op : BinaryOp) (hr : OneLine r) :
    Clear (l ++ " " ++ op.text ++ " " ++ r) := by
  refine Clear.append (Clear.append (hl.operator ?_ ?_) (by decide)) hr
  · rcases op with (_ | _) | _ | _ | (_ | _) | _ | _ | (_ | _) <;> decide
  · rcases op with (_ | _) | _ | _ | (_ | _) | _ | _ | (_ | _) <;> decide

/-- A text in parentheses fits every place if the parentheses are left out where it stands alone. -/
lemma gives_fit_parens {line : Nat} {op : BinaryOp} {left right : Expr}
    (hop : op.isAssignment = false) (hs : Headless s) (place : Place) :
    Gives (do return [← place.fit env (.binary line op left right) ("(" ++ s ++ ")")])
      (Written (.binary line op left right) place) := by
  have hparens : Clear ("(" ++ s ++ ")") :=
    (clear_append (by decide) hs.oneLine).append (by decide)
  refine gives_fit hparens.headless ?_ place
  have hbare : bare (.binary line op left right) ("(" ++ s ++ ")") = s := by
    cases op with
    | assign op => cases hop
    | _ => exact unwrap_parens_text s
  rwa [hbare]

lemma clear_unaryText (op : UnaryOp) (h : Headless text) : Clear (unaryText op text) := by
  unfold unaryText
  split
  next hbehind =>
    cases op with
    | postInc | postDec => exact h.append (by decide) (by decide)
    | _ => cases hbehind
  next =>
    have hop : Clear op.text := by cases op <;> exact clear_of_isClear (by decide)
    unfold prefixed
    split
    · exact ((hop.append (by decide)).append h.oneLine).append (by decide)
    · exact ((hop.append (by decide)).append h.oneLine).append (by decide)
    · exact hop.append h.oneLine

lemma clear_callText (hs : Headless s) {args : List String} (hargs : ∀ arg ∈ args, OneLine arg) :
    Clear (s ++ "(" ++ ", ".intercalate args ++ ")") :=
  ((hs.append (by decide) (by decide)).append
    (oneLine_intercalate (by decide) hargs)).append (by decide)

/-- A text with an argument in brackets behind it. -/
lemma Headless.apply {opening arg closing : String} (hs : Headless s) (hopening : OneLine opening)
    (hdecisive : decisive opening.toList = true) (harg : OneLine arg) (hclosing : OneLine closing) :
    Clear (s ++ opening ++ arg ++ closing) :=
  ((hs.append hopening hdecisive).append harg).append hclosing

lemma clear_memberCallText (isMap : Bool) {target name : String} {args : List String}
    (htarget : Headless target) (hname : OneLine name) (hargs : ∀ arg ∈ args, OneLine arg) :
    Clear (memberCallText isMap target name args) := by
  unfold memberCallText
  split
  case h_1 _ _ value | h_2 _ _ value =>
    exact htarget.apply (by decide) (by decide) (hargs value (by simp)) (by decide)
  case h_3 _ _ key =>
    have hkey : OneLine key := hargs key (by simp)
    cases isMap with
    | true => exact htarget.apply (by decide) (by decide) hkey (by decide)
    | false => exact htarget.apply (by decide) (by decide) hkey (by decide)
  case h_4 _ _ key value | h_5 _ _ key value =>
    have hkey : OneLine key := hargs key (by simp)
    exact (htarget.apply (by decide) (by decide) hkey (by decide)).append (hargs value (by simp))
  case h_6 | h_7 | h_8 => exact htarget.append (by decide) (by decide)
  case h_9 _ _ key =>
    have hkey : OneLine key := hargs key (by simp)
    exact (((clear_append (by decide) htarget.oneLine).append (by decide)).append hkey).append
      (by decide)
  case h_10 _ _ other =>
    have hother : OneLine other := hargs other (by simp)
    exact (((clear_append (by decide) htarget.oneLine).append (by decide)).append hother).append
      (by decide)
  case h_11 _ _ key =>
    exact htarget.apply (by decide) (by decide) (hargs key (by simp)) (by decide)
  case h_12 =>
    exact clear_callText ((htarget.append (by decide) (by decide)).append hname).headless hargs

lemma headless_receiverText (h : Headless text) : Headless (receiverText e text) := by
  unfold receiverText
  split
  · exact ((clear_append (by decide) h.oneLine).append (by decide)).headless
  · exact h

lemma gives_printEnd (name : String) : Gives (printEnd name) OneLine := by
  unfold printEnd
  split
  · exact gives_pure (by decide)
  · exact gives_pure (by decide)
  · exact gives_throw _

lemma clear_printText {items : List String} {last : String} (hitems : ∀ item ∈ items, OneLine item)
    (hlast : OneLine last) : Clear (printText items last) := by
  refine (clear_append (by decide) (oneLine_join ?_)).append hlast
  intro text htext
  obtain ⟨item, hitem, rfl⟩ := List.mem_map.1 htext
  exact oneLine_append_iff.2 ⟨by decide, hitems item hitem⟩

lemma gives_emptyValue (type : TypeExpr) : Gives (emptyValue type) Clear :=
  (gives_typeText type).bind fun _ h => gives_pure (h.append (by decide))

/-- An operation in parentheses. -/
lemma gives_operation {line : Nat} {op : BinaryOp} {left right : Expr} {l r : String}
    (hop : op.isAssignment = false) (hl : Headless l) (hr : Headless r) (place : Place) :
    Gives (do return [← place.fit env (.binary line op left right)
      ("(" ++ l ++ " " ++ op.text ++ " " ++ r ++ ")")])
      (Written (.binary line op left right) place) := by
  have hassoc : "(" ++ l ++ " " ++ op.text ++ " " ++ r ++ ")" =
      "(" ++ (l ++ " " ++ op.text ++ " " ++ r) ++ ")" := by simp only [String.append_assoc]
  rw [hassoc]
  exact gives_fit_parens hop (hl.operation op hr.oneLine).headless place

mutual

/-- **The texts of expressions start with no head.** -/
theorem gives_render : (e : Expr) → e.Has printable → ∀ (env : Env) (place : Place),
    Gives (render env place e) (Written e place)
  | .literal line l, he, env, place => by
    rw [render]
    exact (gives_literalText he.2.1 he.2.2).bind fun text h =>
      gives_fit_of_bare_eq h.headless (by rfl) place
  | .var line name, he, env, place => by
    rw [render]
    exact gives_fit_of_bare_eq (headless_of_name he.2) (by rfl) place
  | .binary line op left right, he, env, place => by
    rw [render]
    refine .ite (fun hsum => ?_) fun _ => ?_
    · obtain ⟨rfl, -⟩ : op = .arith .add ∧ _ := by simpa using hsum
      exact (gives_render left he.2.1 env place.left).bind fun lefts hlefts =>
        (gives_render right he.2.2 env place.right).bind fun rights hrights =>
          gives_pure (hlefts.gather hrights)
    · refine (gives_render left he.2.1 env .alone).bind fun lefts hlefts => ?_
      refine (gives_render right he.2.2 env .alone).bind fun rights hrights => ?_
      obtain ⟨hl, -⟩ := hlefts.join
      obtain ⟨hr, hbare⟩ := hrights.join
      have hassign : ∀ {arith : Arith} {text : String}, Clear text → Gives (do
          return [← place.fit env (.binary line (.assign arith) left right) text])
          (Written (.binary line (.assign arith) left right) place) :=
        fun htext => gives_fit_of_bare_eq htext.headless (by rfl) place
      cases op with
      | assign arith =>
        cases arith with
        | add =>
          have hvalue : ∀ value, Headless value →
              Clear (String.join lefts ++ " += " ++ value) := fun value h =>
            (hl.append (by decide) (by decide)).append h.oneLine
          exact .ite
            (fun _ => (gives_stringText hr.oneLine hbare).bind fun v hv => hassign (hvalue v hv))
            fun _ => (gives_pure hbare).bind fun v hv => hassign (hvalue v hv)
        | _ => exact hassign (((hl.operator (by decide) (by decide)).append (by decide)).append
            hbare.oneLine)
      | arith arith =>
        cases arith with
        | mod =>
          refine .ite (fun _ => (gives_trivial _).bind fun _ _ => ?_) fun _ => ?_
          · have hleft := clear_append (s := "std::fmod(") (by decide) hl.oneLine
            have hargs := (hleft.append (t := ", ") (by decide)).append hr.oneLine
            have htext := hargs.append (t := ")") (by decide)
            refine gives_fit_of_bare_eq htext.headless ?_ place
            refine unwrap_eq_self ?_
            simp only [String.toList_append]
            rintro ⟨⟩
          · have htext := (hl.append (t := " % ") (by decide) (by decide)).append hr.oneLine
            have hassoc : "(" ++ String.join lefts ++ " % " ++ String.join rights ++ ")" =
                "(" ++ (String.join lefts ++ " % " ++ String.join rights) ++ ")" := by
              simp only [String.append_assoc]
            rw [hassoc]
            exact gives_fit_parens rfl htext.headless place
        | _ => exact gives_operation rfl hl hr place
      | _ => exact gives_operation rfl hl hr place
  | .unary line op operand, he, env, place => by
    rw [render]
    refine (gives_render operand he.2 env .alone).bind fun parts hparts => ?_
    have htext := clear_unaryText op hparts.join.1
    exact gives_fit_of_bare_eq htext.headless (by rfl) place
  | .call line name args, he, env, place => by
    rw [render]
    refine (gives_renderAll args he.2.2 env).bind fun texts htexts => ?_
    have htext := clear_callText (headless_of_name he.2.1) htexts
    exact gives_fit_of_bare_eq htext.headless (by rfl) place
  | .methodCall line receiver name args, he, env, place => by
    rw [render]
    refine .ite (fun _ => ?_) fun _ => .ite (fun _ => ?_) fun _ => ?_
    · refine (gives_printEnd name).bind fun last hlast => ?_
      have hprint : ∀ items : List String, (∀ item ∈ items, OneLine item) → Gives (do
          return [← place.fit env (.methodCall line receiver name args) (printText items last)])
          (Written (.methodCall line receiver name args) place) := fun items hitems =>
        gives_fit_of_bare_eq (clear_printText hitems hlast).headless (by rfl) place
      match args, he.2.2.2 with
      | [], _ => exact (gives_pure (List.forall_mem_nil _)).bind hprint
      | arg :: _, hargs =>
        exact (gives_render arg hargs.1 env .printed).bind fun items hitems =>
          hprint items fun item hitem => (hitems.headless item hitem).oneLine
    · refine (gives_renderAll args he.2.2.2 env).bind fun texts htexts => ?_
      have htext := clear_callText (headless_of_name he.2.2.1) htexts
      exact gives_fit_of_bare_eq htext.headless (by rfl) place
    · refine (gives_render receiver he.2.1 env .alone).bind fun parts hparts => ?_
      refine (gives_renderAll args he.2.2.2 env).bind fun texts htexts => ?_
      have htext := clear_memberCallText (env.isMap receiver)
        (headless_receiverText (e := receiver) hparts.join.1) he.2.2.1.1.2.2 htexts
      exact gives_fit_of_bare_eq htext.headless (by rfl) place
  | .index line array key, he, env, place => by
    rw [render]
    refine (gives_render array he.2.1 env .alone).bind fun arrays harrays => ?_
    refine (gives_render key he.2.2 env .alone).bind fun keys hkeys => ?_
    have htext := ((harrays.join.1.append (t := "[") (by decide) (by decide)).append
      hkeys.join.2.oneLine).append (t := "]") (by decide)
    exact gives_fit_of_bare_eq htext.headless (by rfl) place
  | .field line object name, he, env, place => by
    rw [render]
    refine .ite (fun _ => ?_) fun _ => ?_
    · exact gives_fit_of_bare_eq (headless_of_name he.2.2) (by rfl) place
    · refine (gives_render object he.2.1 env .alone).bind fun parts hparts => ?_
      have hobject := headless_receiverText (e := object) hparts.join.1
      have hmember : OneLine (if name = "length" then "size()" else name) := by
        split
        · decide
        · exact he.2.2.1.2.2
      have htext := (hobject.append (t := ".") (by decide) (by decide)).append hmember
      exact gives_fit_of_bare_eq htext.headless (by rfl) place
  | .newObject line type diamond, he, env, place => by
    rw [render]
    have hfit : ∀ text, Clear text → Gives (do
        return [← place.fit env (.newObject line type diamond) text])
        (Written (.newObject line type diamond) place) := fun text htext =>
      gives_fit_of_bare_eq htext.headless (by rfl) place
    exact .ite (fun _ => (gives_pure (clear_of_isClear (by decide))).bind hfit)
      fun _ => (gives_emptyValue type).bind hfit
  | .newArray line type size diamond, he, env, place => by
    rw [render]
    refine (gives_typeText type).bind fun t ht => ?_
    refine (gives_render size he.2 env .alone).bind fun parts hparts => ?_
    have hsize := (ht.append (t := "(") (by decide)).append hparts.join.2.oneLine
    have htext := hsize.append (t := ")") (by decide)
    exact gives_fit_of_bare_eq htext.headless (by rfl) place
  | .assign line target value, he, env, place => by
    rw [render]
    refine (gives_render target he.2.1 env .alone).bind fun parts hparts => ?_
    have hfit : ∀ text, OneLine text → Gives (do
        return [← place.fit env (.assign line target value) (String.join parts ++ " = " ++ text)])
        (Written (.assign line target value) place) := fun text htext =>
      have hassign := (hparts.join.1.append (t := " = ") (by decide) (by decide)).append htext
      gives_fit_of_bare_eq hassign.headless (by rfl) place
    split
    · exact (gives_emptyValue _).bind fun text htext => hfit text htext.oneLine
    · exact ((gives_render value he.2.2 env .alone).map fun _ h => h.join.2.oneLine).bind hfit
  | .arrayInit line elements, he, env, place => by
    rw [render]
    refine (gives_renderAll elements he.2 env).bind fun texts htexts => ?_
    have hlist : OneLine (", ".intercalate texts) := oneLine_intercalate (by decide) htexts
    have htext := (clear_append (s := "\x7b") (by decide) hlist).append (t := "\x7d") (by decide)
    exact gives_fit_of_bare_eq htext.headless (by rfl) place

theorem gives_renderAll : (es : List Expr) → Expr.AllHave printable es → ∀ env : Env,
    Gives (renderAll env es) fun texts => ∀ text ∈ texts, OneLine text
  | [], _, env => gives_pure (List.forall_mem_nil _)
  | e :: es, hes, env => by
    rw [renderAll]
    refine (gives_render e hes.1 env .alone).bind fun parts hparts => ?_
    exact (gives_renderAll es hes.2 env).bind fun texts htexts =>
      gives_pure (List.forall_mem_cons.2 ⟨hparts.join.2.oneLine, htexts⟩)

end

lemma gives_bareText (he : e.Has printable) : Gives (bareText env e) Headless := by
  refine Emit.Gives.bind (Q := fun text => Headless (bare e text)) ?_ fun text h => gives_pure h
  exact (gives_render e he env .alone).bind fun parts h => gives_pure h.join.2

lemma gives_valueText (he : e.Has printable) (type : Option TypeExpr) :
    Gives (valueText env type e) Headless := by
  unfold valueText
  split
  · exact (gives_emptyValue _).mono fun _ => Clear.headless
  · exact gives_bareText he

end ClassLang.Target
