import ClassLang.Proofs.Target.ExprStarts

set_option autoImplicit false

/-!
# The control-flow skeleton of generated code

The lines of generated code are read without their indentation, and each line that starts with a
head counts as the statement that the head opens. What is read so are the branches, loops and
switches of the program, in the order in which its outline lists them: although a class is taken
apart into fields and functions, although a branch that is alone in the other side of another one
joins its `else`, and although a member may be named after a keyword.

## Main definitions

* `ClassLang.Outline.skeleton` — the branches, loops and switches of an outline in order.
* `ClassLang.Target.Shows` — lines that fit and show given statements.
* `ClassLang.Target.textSkeleton` — the statements that the lines of a text open.

## Main results

* `ClassLang.Target.shows_stmtLines` — the lines of a statement show its skeleton.
* `ClassLang.Program.generated_code_keeps_skeleton` — the text of a program shows its skeleton.
-/

namespace ClassLang

/-! ## Skeletons of outlines -/

/-- Whether a node is a branch, a loop or a switch. -/
def NodeKind.isControl : NodeKind → Bool
  | ifStmt | whileStmt | doWhileStmt | forStmt | switchStmt => true
  | _ => false

namespace Outline

/-- The branches, loops and switches of an outline in pre-order. -/
def skeleton (o : Outline) : List NodeKind :=
  o.kinds.filter NodeKind.isControl

/-- The branches, loops and switches of several outlines. -/
def forestSkeleton (os : List Outline) : List NodeKind :=
  os.flatMap skeleton

lemma filter_forestNodes (os : List Outline) :
    ((forestNodes os).map kind).filter NodeKind.isControl = forestSkeleton os := by
  induction os with
  | nil => rfl
  | cons o os ih =>
    rw [forestNodes, List.map_append, List.filter_append, ih]
    rfl

lemma skeleton_node (kind : NodeKind) (line : Nat) (attributes : List (String × String))
    (children : List Outline) : (node kind line attributes children).skeleton =
      if kind.isControl then kind :: forestSkeleton children else forestSkeleton children := by
  rw [skeleton, kinds, nodes, List.map_cons, List.filter_cons, filter_forestNodes]
  rfl

end Outline

open Outline (skeleton forestSkeleton skeleton_node)

mutual

theorem Expr.skeleton_outline : (e : Expr) → e.outline.skeleton = []
  | .literal _ _ | .var _ _ | .newObject _ _ _ => rfl
  | .binary _ _ left right | .assign _ left right | .index _ left right => by
    simp [outline, skeleton_node, NodeKind.isControl, forestSkeleton, left.skeleton_outline,
      right.skeleton_outline]
  | .unary _ _ operand | .newArray _ _ operand _ | .field _ operand _ => by
    simp [outline, skeleton_node, NodeKind.isControl, forestSkeleton, operand.skeleton_outline]
  | .call _ _ args | .arrayInit _ args => by
    simp [outline, skeleton_node, NodeKind.isControl, Expr.skeleton_outlines args]
  | .methodCall _ receiver _ args => by
    have hargs := Expr.skeleton_outlines args
    simp_all [outline, skeleton_node, NodeKind.isControl, forestSkeleton, receiver.skeleton_outline]

theorem Expr.skeleton_outlines : (es : List Expr) → forestSkeleton (Expr.outlines es) = []
  | [] => rfl
  | e :: es => by
    have hes := Expr.skeleton_outlines es
    simp_all [Expr.outlines, forestSkeleton, e.skeleton_outline]

end

lemma VarDecl.skeleton_outline (d : VarDecl) : d.outline.skeleton = [] := by
  cases h : d.init with
  | none => simp [outline, declarationOutline, h, skeleton_node, NodeKind.isControl, forestSkeleton]
  | some e =>
    simp [outline, declarationOutline, h, skeleton_node, NodeKind.isControl, forestSkeleton,
      e.skeleton_outline]

lemma skeleton_optional (o : Option Expr) : forestSkeleton (o.map Expr.outline).toList = [] := by
  cases o with
  | none => rfl
  | some e => simp [forestSkeleton, e.skeleton_outline]

lemma skeleton_init (init : Option ForInit) :
    forestSkeleton (init.map ForInit.outline).toList = [] := by
  match init with
  | none => rfl
  | some (.decl d) => simp [ForInit.outline, forestSkeleton, d.skeleton_outline]
  | some (.expr e) =>
    simp [ForInit.outline, Expr.stmtOutline, forestSkeleton, skeleton_node, NodeKind.isControl,
      e.skeleton_outline]

namespace Target

open Emit (Gives gives_pure gives_throw gives_trivial)

/-! ## Lines -/

/-- The kind of statement that a line opens. -/
def Line.kind? (line : Line) : Option NodeKind :=
  headKind? line.text.toList

/-- The text of the line stays on it and starts with no space. -/
structure Line.Fits (line : Line) : Prop where
  oneLine : OneLine line.text
  start : line.text.toList.head? ≠ some ' '

/-- Lines that fit and show statements of the given kinds. -/
structure Shows (lines : List Line) (kinds : List NodeKind) : Prop where
  fits : ∀ line ∈ lines, line.Fits
  kinds : lines.filterMap Line.kind? = kinds

variable {lines more : List Line} {kinds kinds' : List NodeKind} {depth : Nat} {text : String}
  {env : Env}

lemma shows_nil : Shows [] [] :=
  ⟨List.forall_mem_nil _, rfl⟩

lemma Shows.append (h : Shows lines kinds) (h' : Shows more kinds') :
    Shows (lines ++ more) (kinds ++ kinds') :=
  ⟨List.forall_mem_append.2 ⟨h.fits, h'.fits⟩, by rw [List.filterMap_append, h.kinds, h'.kinds]⟩

lemma shows_clear (h : Clear text) (depth : Nat) : Shows [⟨depth, text⟩] [] := by
  obtain ⟨c, cs, htext, hc⟩ := h.start
  refine ⟨List.forall_mem_singleton.2 ⟨h.oneLine, ?_⟩, ?_⟩
  · simpa [htext] using hc
  · have hnone : Line.kind? ⟨depth, text⟩ = none := by
      rw [Line.kind?, ← List.append_nil text.toList]
      exact h.noHead []
    simp [hnone]

/-- Lines behind one that shows nothing. -/
lemma Shows.below_clear (hlines : Shows lines kinds) (h : Clear text) (depth : Nat) :
    Shows (⟨depth, text⟩ :: lines) kinds :=
  (shows_clear h depth).append hlines

lemma Shows.close (hlines : Shows lines kinds) (h : Clear text) (depth : Nat) :
    Shows (lines ++ [⟨depth, text⟩]) kinds := by
  simpa using hlines.append (shows_clear h depth)

/-- The line with a head shows its statement. -/
lemma shows_head {head rest : String} {kind : NodeKind}
    (hhead : ∀ t, headKind? (head.toList ++ t) = some kind) (hone : OneLine head)
    (hstart : (head.toList.head?.any (· ≠ ' ')) = true) (hrest : OneLine rest) (depth : Nat) :
    Shows [⟨depth, head ++ rest⟩] [kind] := by
  refine ⟨List.forall_mem_singleton.2 ⟨oneLine_append_iff.2 ⟨hone, hrest⟩, ?_⟩, ?_⟩
  · cases hchars : head.toList with
    | nil => simp [hchars] at hstart
    | cons c cs => simpa [hchars] using hstart
  · have hsome : Line.kind? ⟨depth, head ++ rest⟩ = some kind := by
      rw [Line.kind?, String.toList_append, hhead]
    simp [hsome]

lemma shows_opening {word head : String} {kind : NodeKind}
    (hword : ∀ t, headKind? ((word ++ " (").toList ++ t) = some kind) (hone : OneLine word)
    (hstart : ((word ++ " (").toList.head?.any (· ≠ ' ')) = true) (hhead : OneLine head)
    (depth : Nat) : Shows [⟨depth, opening word head⟩] [kind] := by
  have hopening : opening word head = word ++ " (" ++ (head ++ ") \x7b") := String.append_assoc
  rw [hopening]
  exact shows_head hword (oneLine_append_iff.2 ⟨hone, by decide⟩) hstart
    (oneLine_append_iff.2 ⟨hhead, by decide⟩) depth

/-! ## Texts of statements -/

lemma gives_declarationText {type : TypeExpr} {name : String} {init : Option Expr}
    (hname : OneLine name) (hinit : ∀ e ∈ init, e.Has printable) :
    Gives (declarationText env type name init) Clear := by
  refine (gives_typeText type).bind fun t ht => ?_
  have hdeclared : Clear (t ++ " " ++ name) := (ht.append (by decide)).append hname
  cases init with
  | none => exact gives_pure hdeclared
  | some value =>
    have hvalue : Gives (do
        return t ++ " " ++ name ++ " = " ++ (← valueText env (some type) value)) Clear :=
      (gives_valueText (hinit value rfl) (some type)).bind fun v hv =>
        gives_pure ((hdeclared.append (by decide)).append hv.oneLine)
    dsimp only
    split
    · exact gives_pure hdeclared
    · exact hvalue

lemma gives_initText {init : Option ForInit} (hinit : ∀ i ∈ init, i.Has printable) :
    Gives (initText env init) OneLine := by
  match init, hinit with
  | none, _ => exact gives_pure (by decide)
  | some (.decl d), hinit =>
    have hd : d.Has printable := hinit _ rfl
    exact (gives_declarationText hd.2.1.1 hd.2.2).mono fun _ => Clear.oneLine
  | some (.expr e), hinit =>
    exact (gives_bareText (e := e) (hinit _ rfl)).mono fun _ => Headless.oneLine

lemma gives_optionalText {o : Option Expr} (ho : ∀ e ∈ o, e.Has printable) :
    Gives (optionalText env o) OneLine := by
  cases o with
  | none => exact gives_pure (by decide)
  | some e => exact (gives_bareText (ho e rfl)).mono fun _ => Headless.oneLine

lemma gives_returnText {value : Option Expr} (hvalue : ∀ e ∈ value, e.Has printable) :
    Gives (returnText env value) Clear := by
  cases value with
  | none =>
    refine gives_pure ?_
    split
    · exact clear_of_isClear (by decide)
    · exact clear_of_isClear (by decide)
  | some e =>
    exact (gives_valueText (hvalue e rfl) _).bind fun v hv =>
      gives_pure ((clear_append (by decide) hv.oneLine).append (by decide))

lemma gives_labelText {arm : SwitchArm} (harm : arm.Has printable) :
    Gives (labelText env arm) Clear := by
  cases arm with
  | labelled line label body =>
    exact (gives_bareText harm.2.1).bind fun t ht =>
      gives_pure ((clear_append (by decide) ht.oneLine).append (by decide))
  | otherwise line body => exact gives_pure (clear_of_isClear (by decide))

/-! ## Statements -/

/-- What stands in front of a branch: nothing, or the `else` that it joins. -/
def IsLead (lead : String) : Prop :=
  lead = "" ∨ lead = "else "

lemma shows_if {lead head : String} (hlead : IsLead lead) (hhead : OneLine head) (depth : Nat) :
    Shows [⟨depth, opening (lead ++ "if") head⟩] [.ifStmt] := by
  rcases hlead with rfl | rfl
  · exact shows_opening (fun t => rfl) (by decide) (by decide) hhead depth
  · exact shows_opening (fun t => rfl) (by decide) (by decide) hhead depth

/-- The closing brace. -/
lemma clear_brace : Clear "\x7d" :=
  clear_of_isClear (by decide)

/-- A line with a head, lines below it and a closing line. -/
lemma Shows.enclose {first last : Line} {kind : NodeKind} (hfirst : Shows [first] [kind])
    (hlines : Shows lines kinds) (hlast : Clear last.text) :
    Shows (first :: lines ++ [last]) (kind :: kinds) :=
  (hfirst.append hlines).close hlast last.depth

/-- The lines of a block in braces of its own. -/
lemma Shows.braces {opening : String} (hopening : Clear opening) (hlines : Shows lines kinds)
    (depth : Nat) : Shows (⟨depth, opening⟩ :: lines ++ [⟨depth, "\x7d"⟩]) kinds :=
  (hlines.below_clear hopening depth).close clear_brace depth

mutual

/-- **The lines of a statement show its skeleton.** -/
theorem shows_stmtLines : (s : Stmt) → s.Has printable → ∀ (env : Env) (depth : Nat)
    {lead : String}, IsLead lead →
    Gives (stmtLines env depth lead s) (Shows · s.outline.skeleton)
  | .varDecl d, hs, env, depth, _, _ => by
    rw [stmtLines, Stmt.outline, d.skeleton_outline]
    exact (gives_declarationText hs.2.1.1 hs.2.2).bind fun t ht =>
      gives_pure (shows_clear (ht.append (by decide)) depth)
  | .block body, hs, env, depth, _, _ => by
    rw [stmtLines, Stmt.outline]
    exact (shows_blockLines body hs env (depth + 1)).bind fun lines hlines =>
      gives_pure (hlines.braces (clear_of_isClear (by decide)) depth)
  | .ifThen line condition thenBranch, hs, env, depth, lead, hlead => by
    have hskeleton : (Stmt.ifThen line condition thenBranch).outline.skeleton =
        .ifStmt :: thenBranch.outline.skeleton := by
      simp [Stmt.outline, skeleton_node, NodeKind.isControl, forestSkeleton,
        condition.skeleton_outline]
    rw [stmtLines, hskeleton]
    refine (gives_bareText hs.2.1).bind fun head hhead => ?_
    exact (shows_blockLines thenBranch hs.2.2 env (depth + 1)).bind fun lines hlines =>
      gives_pure ((shows_if hlead hhead.oneLine depth).enclose hlines clear_brace)
  | .ifElse line condition thenBranch elseBranch, hs, env, depth, lead, hlead => by
    have hskeleton : (Stmt.ifElse line condition thenBranch elseBranch).outline.skeleton =
        .ifStmt :: thenBranch.outline.skeleton ++ elseBranch.outline.skeleton := by
      simp [Stmt.outline, skeleton_node, NodeKind.isControl, forestSkeleton,
        condition.skeleton_outline]
    rw [stmtLines, hskeleton]
    refine (gives_bareText hs.2.1).bind fun head hhead => ?_
    refine (shows_blockLines thenBranch hs.2.2.1 env (depth + 1)).bind fun lines hlines => ?_
    exact (shows_elseLines elseBranch hs.2.2.2 env depth).bind fun others hothers =>
      gives_pure (((shows_if hlead hhead.oneLine depth).enclose hlines clear_brace).append hothers)
  | .whileLoop line condition body, hs, env, depth, _, _ => by
    have hskeleton : (Stmt.whileLoop line condition body).outline.skeleton =
        .whileStmt :: body.outline.skeleton := by
      simp [Stmt.outline, skeleton_node, NodeKind.isControl, forestSkeleton,
        condition.skeleton_outline]
    rw [stmtLines, hskeleton]
    refine (gives_bareText hs.2.1).bind fun head hhead => ?_
    refine (shows_blockLines body hs.2.2 env (depth + 1)).bind fun lines hlines => gives_pure ?_
    have hfirst : Shows [⟨depth, opening "while" head⟩] [.whileStmt] :=
      shows_opening (fun _ => rfl) (by decide) (by decide) hhead.oneLine depth
    exact hfirst.enclose hlines clear_brace
  | .doWhile line body condition, hs, env, depth, _, _ => by
    have hskeleton : (Stmt.doWhile line body condition).outline.skeleton =
        .doWhileStmt :: body.outline.skeleton := by
      simp [Stmt.outline, skeleton_node, NodeKind.isControl, forestSkeleton,
        condition.skeleton_outline]
    rw [stmtLines, hskeleton]
    refine (shows_blockLines body hs.2.1 env (depth + 1)).bind fun lines hlines => ?_
    refine (gives_bareText hs.2.2).bind fun last hlast => gives_pure ?_
    have hfirst : Shows [⟨depth, "do \x7b" ++ ""⟩] [.doWhileStmt] :=
      shows_head (fun _ => rfl) (by decide) (by decide) (by decide) depth
    exact hfirst.enclose hlines ((clear_append (by decide) hlast.oneLine).append (by decide))
  | .forLoop line init condition update body, hs, env, depth, _, _ => by
    have hskeleton : (Stmt.forLoop line init condition update body).outline.skeleton =
        .forStmt :: body.outline.skeleton := by
      have hinit := skeleton_init init
      have hcondition := skeleton_optional condition
      have hupdate := skeleton_optional update
      simp only [forestSkeleton] at hinit hcondition hupdate
      simp [Stmt.outline, skeleton_node, NodeKind.isControl, forestSkeleton, hinit, hcondition,
        hupdate]
    obtain ⟨-, hinit, hcondition, hupdate, hbody⟩ := hs
    rw [stmtLines, hskeleton]
    refine (gives_initText hinit).bind fun first hfirst => ?_
    refine (gives_optionalText hcondition).bind fun second hsecond => ?_
    refine (gives_optionalText hupdate).bind fun third hthird => ?_
    refine (shows_blockLines body hbody _ (depth + 1)).bind fun lines hlines => gives_pure ?_
    have hclauses : OneLine (first ++ "; " ++ second ++ "; " ++ third) := by
      simp only [oneLine_append_iff]
      exact ⟨⟨⟨⟨hfirst, by decide⟩, hsecond⟩, by decide⟩, hthird⟩
    have hopening : Shows [⟨depth, opening "for" (first ++ "; " ++ second ++ "; " ++ third)⟩]
        [.forStmt] := shows_opening (fun _ => rfl) (by decide) (by decide) hclauses depth
    exact hopening.enclose hlines clear_brace
  | .switch line condition arms, hs, env, depth, _, _ => by
    have hskeleton : (Stmt.switch line condition arms).outline.skeleton =
        .switchStmt :: forestSkeleton (armOutlines arms) := by
      simp [Stmt.outline, skeleton_node, NodeKind.isControl, forestSkeleton,
        condition.skeleton_outline]
    rw [stmtLines, hskeleton]
    refine (gives_bareText hs.2.1).bind fun head hhead => ?_
    refine (shows_armsLines arms hs.2.2 env depth).bind fun lines hlines => gives_pure ?_
    have hfirst : Shows [⟨depth, opening "switch" head⟩] [.switchStmt] :=
      shows_opening (fun _ => rfl) (by decide) (by decide) hhead.oneLine depth
    exact hfirst.enclose hlines clear_brace
  | .ret line value, hs, env, depth, _, _ => by
    rw [stmtLines, Stmt.outline, skeleton_node, skeleton_optional]
    exact (gives_returnText hs.2).bind fun t ht => gives_pure (shows_clear ht depth)
  | .expr e, hs, env, depth, _, _ => by
    have hskeleton : (Stmt.expr e).outline.skeleton = [] := by
      simp [Stmt.outline, Expr.stmtOutline, skeleton_node, NodeKind.isControl, forestSkeleton,
        e.skeleton_outline]
    rw [stmtLines, hskeleton]
    exact (gives_bareText (e := e) hs).bind fun t ht =>
      gives_pure (shows_clear (ht.append (by decide) (by decide)) depth)
  | .breakOff line, _, env, depth, _, _ =>
    gives_pure (shows_clear (clear_of_isClear (by decide)) depth)
  | .continueOn line, _, env, depth, _, _ =>
    gives_pure (shows_clear (clear_of_isClear (by decide)) depth)

theorem shows_elseLines : (body : Block) → body.Has printable → ∀ (env : Env) (depth : Nat),
    Gives (elseLines env depth body) (Shows · body.outline.skeleton)
  | .mk line [], _, env, depth =>
    gives_pure (shows_nil.braces (clear_of_isClear (by decide)) depth)
  | .mk line [s], hbody, env, depth => by
    have hskeleton : (Block.mk line [s]).outline.skeleton = s.outline.skeleton := by
      simp [Block.outline, skeleton_node, NodeKind.isControl, forestSkeleton, stmtOutlines]
    rw [hskeleton]
    simp only [elseLines]
    refine .ite (fun _ => ?_) fun _ => ?_
    · exact shows_stmtLines s hbody.2.1 env depth (.inr rfl)
    · exact (shows_stmtLines s hbody.2.1 env.push (depth + 1) (.inl rfl)).bind fun lines hlines =>
        gives_pure (hlines.braces (clear_of_isClear (by decide)) depth)
  | .mk line (s :: s' :: ss), hbody, env, depth => by
    rw [Block.outline, skeleton_node]
    exact (shows_stmtsLines (s :: s' :: ss) hbody.2 env.push (depth + 1)).bind fun lines hlines =>
      gives_pure (hlines.braces (clear_of_isClear (by decide)) depth)

theorem shows_stmtsLines : (ss : List Stmt) → Stmt.AllHave printable ss →
    ∀ (env : Env) (depth : Nat),
    Gives (stmtsLines env depth ss) (Shows · (forestSkeleton (stmtOutlines ss)))
  | [], _, env, depth => gives_pure shows_nil
  | s :: ss, hss, env, depth => by
    rw [stmtsLines]
    refine (shows_stmtLines s hss.1 env depth (.inl rfl)).bind fun lines hlines => ?_
    exact (shows_stmtsLines ss hss.2 (env.after s) depth).bind fun more hmore =>
      gives_pure (hlines.append hmore)

theorem shows_blockLines : (body : Block) → body.Has printable → ∀ (env : Env) (depth : Nat),
    Gives (blockLines env depth body) (Shows · body.outline.skeleton)
  | .mk line ss, hbody, env, depth => by
    rw [blockLines, Block.outline, skeleton_node]
    exact shows_stmtsLines ss hbody.2 env.push depth

theorem shows_armsLines : (arms : List SwitchArm) → SwitchArm.AllHave printable arms →
    ∀ (env : Env) (depth : Nat),
    Gives (armsLines env depth arms) (Shows · (forestSkeleton (armOutlines arms)))
  | [], _, env, depth => gives_pure shows_nil
  | arm :: arms, harms, env, depth => by
    rw [armsLines]
    refine (shows_armLines arm harms.1 env depth).bind fun lines hlines => ?_
    exact (shows_armsLines arms harms.2 env depth).bind fun more hmore =>
      gives_pure (hlines.append hmore)

theorem shows_armLines : (arm : SwitchArm) → arm.Has printable → ∀ (env : Env) (depth : Nat),
    Gives (armLines env depth arm) (Shows · arm.outline.skeleton)
  | .labelled line label body, harm, env, depth => by
    have hskeleton : (SwitchArm.labelled line label body).outline.skeleton =
        body.outline.skeleton := by
      simp [SwitchArm.outline, skeleton_node, NodeKind.isControl, forestSkeleton,
        label.skeleton_outline]
    rw [armLines, hskeleton]
    refine (gives_labelText harm).bind fun text htext => ?_
    exact (shows_blockLines body harm.2.2 env (depth + 1)).bind fun lines hlines => .ite
      (fun _ => gives_pure (hlines.braces (htext.append (by decide)) depth))
      fun _ => gives_pure (hlines.below_clear htext depth)
  | .otherwise line body, harm, env, depth => by
    have hskeleton : (SwitchArm.otherwise line body).outline.skeleton = body.outline.skeleton := by
      simp [SwitchArm.outline, skeleton_node, NodeKind.isControl, forestSkeleton]
    rw [armLines, hskeleton]
    refine (gives_labelText harm).bind fun text htext => ?_
    exact (shows_blockLines body harm.2 env (depth + 1)).bind fun lines hlines => .ite
      (fun _ => gives_pure (hlines.braces (htext.append (by decide)) depth))
      fun _ => gives_pure (hlines.below_clear htext depth)

end

/-! ## Fields and methods -/

lemma shows_globalLines {ds : List FieldDecl}
    (hds : ∀ d ∈ ds, (Member.field d).Has printable) :
    Gives (globalLines env ds) (Shows · []) := by
  induction ds with
  | nil => exact gives_pure shows_nil
  | cons d ds ih =>
    obtain ⟨hd, hrest⟩ := List.forall_mem_cons.1 hds
    refine (gives_declarationText hd.2.1.1 hd.2.2).bind fun text htext => ?_
    exact (ih hrest).bind fun lines hlines =>
      gives_pure (hlines.below_clear (htext.append (by decide)) 0)

lemma gives_parameterTexts {ps : List Parameter} (hps : ∀ p ∈ ps, p.Has printable) :
    Gives (parameterTexts ps) fun texts => ∀ text ∈ texts, OneLine text := by
  induction ps with
  | nil => exact gives_pure (List.forall_mem_nil _)
  | cons p ps ih =>
    obtain ⟨hp, hrest⟩ := List.forall_mem_cons.1 hps
    have hparameter : Gives (parameterText p) OneLine := by
      refine (gives_typeText p.type).bind fun type htype => .ite (fun _ => ?_) fun _ => ?_
      · exact gives_pure ((htype.append (by decide)).append hp.2.1).oneLine
      · exact gives_pure ((htype.append (by decide)).append hp.2.1).oneLine
    exact hparameter.bind fun text htext => (ih hrest).bind fun texts htexts =>
      gives_pure (List.forall_mem_cons.2 ⟨htext, htexts⟩)

lemma gives_signatureText {d : MethodDecl} (hd : (Member.method d).Has printable) :
    Gives (signatureText d) Clear := by
  refine .ite (fun _ => gives_pure (clear_of_isClear (by decide))) fun _ => ?_
  refine (gives_typeText d.returnType).bind fun type htype => ?_
  refine (gives_parameterTexts hd.2.2.1).bind fun params hparams => gives_pure ?_
  exact clear_callText ((htype.append (by decide)).append hd.2.1.1).headless hparams

lemma shows_prototypeLines {ds : List MethodDecl}
    (hds : ∀ d ∈ ds, (Member.method d).Has printable) : Gives (prototypeLines ds) (Shows · []) := by
  induction ds with
  | nil => exact gives_pure shows_nil
  | cons d ds ih =>
    obtain ⟨hd, hrest⟩ := List.forall_mem_cons.1 hds
    refine .ite (fun _ => ih hrest) fun _ => ?_
    refine (gives_signatureText hd).bind fun text htext => ?_
    exact (ih hrest).bind fun lines hlines =>
      gives_pure (hlines.below_clear (htext.append (by decide)) 0)

lemma skeleton_block (body : Block) :
    body.outline.skeleton = forestSkeleton (stmtOutlines body.stmts) := by
  cases body with
  | mk line stmts =>
    rw [Block.outline, skeleton_node]
    rfl

lemma shows_functionLines {d : MethodDecl} (hd : (Member.method d).Has printable) :
    Gives (functionLines env d) (Shows · d.body.outline.skeleton) := by
  have hstmts : Stmt.AllHave printable d.body.stmts := by
    have hbody := hd.2.2.2
    cases hcases : d.body with
    | mk line stmts =>
      rw [hcases] at hbody
      exact hbody.2
  refine (gives_signatureText hd).bind fun signature hsignature => ?_
  refine (shows_stmtsLines d.body.stmts hstmts (env.enter d) 1).bind fun lines hlines => ?_
  rw [skeleton_block]
  exact gives_pure ((hlines.braces (clear_of_isClear (by decide)) 0).below_clear hsignature 0)

/-- The functions show the skeletons of the bodies one after the other. -/
lemma shows_functionsLines {ds : List MethodDecl}
    (hds : ∀ d ∈ ds, (Member.method d).Has printable) :
    Gives (functionsLines env ds) fun groups =>
      Shows groups.flatten (ds.flatMap fun d => d.body.outline.skeleton) := by
  induction ds with
  | nil => exact gives_pure shows_nil
  | cons d ds ih =>
    obtain ⟨hd, hrest⟩ := List.forall_mem_cons.1 hds
    exact (shows_functionLines hd).bind fun lines hlines => (ih hrest).bind fun groups hgroups =>
      gives_pure (hlines.append hgroups)

/-! ## Source files -/

lemma shows_blank : Shows [⟨0, ""⟩] [] :=
  ⟨List.forall_mem_singleton.2 ⟨by decide, by decide⟩, by decide⟩

lemma Shows.paragraph (h : Shows lines kinds) : Shows (SourceUnit.paragraph lines) kinds := by
  unfold SourceUnit.paragraph
  split
  next hempty => rwa [List.isEmpty_iff.1 hempty] at h
  next => simpa using h.append shows_blank

lemma Shows.spaced {groups : List (List Line)} (h : Shows groups.flatten kinds) :
    Shows (SourceUnit.spaced groups) kinds := by
  rw [← h.kinds]
  have hfits := h.fits
  clear h
  fun_induction SourceUnit.spaced groups with
  | case1 => exact shows_nil
  | case2 lines =>
    rw [List.flatten_singleton] at hfits ⊢
    exact ⟨hfits, rfl⟩
  | case3 lines rest hne ih =>
    rw [List.flatten_cons] at hfits ⊢
    rw [List.filterMap_append]
    obtain ⟨hlines, hrest⟩ := List.forall_mem_append.1 hfits
    have hfirst : Shows lines (lines.filterMap Line.kind?) := ⟨hlines, rfl⟩
    exact hfirst.append (shows_blank.append (ih hrest))

namespace SourceUnit

/-- The text of lines, each with a line feed behind it. -/
def linesText (width : Nat) (lines : List Line) : String :=
  String.join (lines.map fun line => line.render width ++ "\n")

/-- The headers and the helper, as text. -/
def headText (width : Nat) (u : SourceUnit) : String :=
  linesText width u.headLines

/-- The global variables, the prototypes and the functions, as text. -/
def bodyText (width : Nat) (u : SourceUnit) : String :=
  linesText width u.bodyLines

lemma text_eq_append (width : Nat) (u : SourceUnit) :
    u.text width = u.headText width ++ u.bodyText width := by
  rw [text, List.map_append, String.join_append]
  rfl

end SourceUnit

/-- The statements that the lines of a text open, each line read from its first character that is
not a space. -/
def textSkeleton (text : String) : List NodeKind :=
  (text.toList.splitOn '\n').filterMap fun line => headKind? (line.dropWhile (· = ' '))

lemma toList_pushn (n : Nat) : ("".pushn ' ' n).toList = List.replicate n ' ' := by
  rw [String.pushn]
  induction n with
  | zero => rfl
  | succ n ih =>
    rw [Nat.repeat, String.toList_push, ih]
    exact List.replicate_succ'.symm

lemma Line.Fits.unindent {line : Line} (h : line.Fits) (width : Nat) :
    '\n' ∉ (line.render width).toList ∧
      (line.render width).toList.dropWhile (· = ' ') = line.text.toList := by
  rw [Line.render, String.toList_append, toList_pushn]
  constructor
  · rw [List.mem_append, not_or]
    exact ⟨fun hmem => absurd (List.eq_of_mem_replicate hmem) (by decide), h.oneLine⟩
  · rw [List.dropWhile_append_of_pos fun c hc => by simp [List.eq_of_mem_replicate hc]]
    cases hchars : line.text.toList with
    | nil => rfl
    | cons c cs =>
      have hc : c ≠ ' ' := by
        rintro rfl
        exact h.start (by rw [hchars, List.head?_cons])
      simp [hc]

/-- Lines read back from their text show the same statements. -/
lemma Shows.textSkeleton_eq (h : Shows lines kinds) (width : Nat) :
    textSkeleton (SourceUnit.linesText width lines) = kinds := by
  rw [← h.kinds]
  have hfits := h.fits
  clear h
  induction lines with
  | nil => rfl
  | cons line lines ih =>
    obtain ⟨hline, hrest⟩ := List.forall_mem_cons.1 hfits
    obtain ⟨hfeed, htext⟩ := hline.unindent width
    have hchars : (SourceUnit.linesText width (line :: lines)).toList =
        (line.render width).toList ++ '\n' :: (SourceUnit.linesText width lines).toList := by
      simp [SourceUnit.linesText, String.toList_append]
    rw [textSkeleton, hchars, List.splitOn_append_cons_self_of_not_mem hfeed, List.filterMap_cons,
      htext, List.filterMap_cons, ← ih hrest]
    rfl

/-- What holds of the parts that are generated holds of the parts of the source file. -/
lemma SourceUnit.parts_of_ofProgram {p : Program} {prototypes : Bool} {u : SourceUnit}
    {G P : List Line → Prop} {F : List (List Line) → Prop}
    (hglobals : Gives (globalLines (Env.ofProgram p) p.fields) G)
    (hheads : Gives (prototypeLines p.methods) P) (hnone : P [])
    (hfunctions : Gives (functionsLines (Env.ofProgram p) p.methods) F)
    (h : SourceUnit.ofProgram p prototypes = .ok u) :
    G u.globals ∧ P u.prototypes ∧ F u.functions := by
  have hemit : Gives (SourceUnit.emit p prototypes) fun parts =>
      G parts.1 ∧ P parts.2.1 ∧ F parts.2.2 := by
    refine hglobals.bind fun globals hglobals => ?_
    have hrest : ∀ heads, P heads → Gives (do
        let functions ← functionsLines (Env.ofProgram p) p.methods
        return (globals, heads, functions)) fun parts => G parts.1 ∧ P parts.2.1 ∧ F parts.2.2 :=
      fun heads hheads => hfunctions.bind fun functions h => gives_pure ⟨hglobals, hheads, h⟩
    exact .ite (fun _ => hheads.bind hrest) fun _ => (gives_pure hnone).bind hrest
  unfold SourceUnit.ofProgram at h
  split at h
  next globals heads functions needs hrun =>
    obtain rfl := Except.ok.inj h
    exact hemit hrun
  next => cases h

/-- The lines of a program show the skeletons of its methods. -/
lemma shows_bodyLines {p : Program} (hp : p.Has printable) {prototypes : Bool} {u : SourceUnit}
    (h : SourceUnit.ofProgram p prototypes = .ok u) :
    Shows u.bodyLines (p.methods.flatMap fun d => d.body.outline.skeleton) := by
  have hmethods : ∀ d ∈ p.methods, (Member.method d).Has printable := fun d => hp.method
  obtain ⟨hglobals, hheads, hfunctions⟩ := SourceUnit.parts_of_ofProgram
    (shows_globalLines fun d => hp.field) (shows_prototypeLines hmethods) shows_nil
    (shows_functionsLines hmethods) h
  exact (hglobals.paragraph.append hheads.paragraph).append hfunctions.spaced

end Target

/-! ## Programs -/

lemma Member.skeleton_outline (m : Member) :
    m.outline.skeleton = m.method?.toList.flatMap fun d => d.body.outline.skeleton := by
  cases m with
  | field f =>
    rw [Member.outline, declarationOutline, skeleton_node, skeleton_optional]
    rfl
  | method d =>
    have hparams : forestSkeleton (d.params.map Parameter.outline) = [] := by
      rw [forestSkeleton, List.flatMap_map, List.flatMap_eq_nil_iff]
      exact fun param _ => rfl
    have hlist : (Outline.node .parameterList d.line [] (d.params.map Parameter.outline)).skeleton =
        [] := by
      rw [skeleton_node, hparams]
      rfl
    rw [Member.outline, skeleton_node]
    simp [NodeKind.isControl, forestSkeleton, hlist, Member.method?]

lemma Program.skeleton_outline (p : Program) :
    p.outline.skeleton = p.methods.flatMap fun d => d.body.outline.skeleton := by
  have hclass : ∀ c : ClassDecl, c.outline.skeleton =
      c.methods.flatMap fun d => d.body.outline.skeleton := by
    intro c
    rw [ClassDecl.outline, skeleton_node, ClassDecl.methods, List.filterMap_eq_flatMap_toList,
      List.flatMap_assoc]
    simp only [NodeKind.isControl, Bool.false_eq_true, if_false, forestSkeleton, List.flatMap_map,
      Member.skeleton_outline]
  rw [Program.outline, skeleton_node, Program.methods, List.flatMap_assoc]
  simp only [NodeKind.isControl, Bool.false_eq_true, if_false, forestSkeleton, List.flatMap_map,
    hclass]

/-- What is generated is the text of a source file. -/
lemma Program.exists_unit_of_generate {p : Program} {layout : Target.Layout} {text : String}
    (h : p.generate layout = .ok text) :
    ∃ u, Target.SourceUnit.ofProgram p layout.prototypes = .ok u ∧
      u.text layout.indentWidth = text := by
  unfold Program.generate at h
  cases hunit : Target.SourceUnit.ofProgram p layout.prototypes with
  | error e =>
    rw [hunit] at h
    cases h
  | ok u =>
    rw [hunit] at h
    exact ⟨u, rfl, Except.ok.inj h⟩

/-- **Generated code keeps the control-flow skeleton.** Take a program that is parsed from a text
and that has no line feed in a string or character literal. If its source file is generated,
whatever the layout, then the text of the file is that of the headers and the helper and, behind it,
that of the global variables, prototypes and functions. The lines of the latter, read without the
spaces they start with, open branches, loops and switches by their heads. These are the branches,
loops and switches of the program, in the order of its outline.

**Proof sketch.** The names and literals of the program have the shapes that the scanner gives them,
so the texts of expressions start with no head (`gives_render`) and have no line feed. By induction
on statements, their lines show their skeletons (`shows_stmtLines`). -/
theorem Program.generated_code_keeps_skeleton (source : String) (p : Program)
    (hparsed : Program.ofText source = .ok p) (hliterals : p.Has Leaves.unbroken)
    (layout : Target.Layout) (text : String) (hgenerated : p.generate layout = .ok text) :
    ∃ u, Target.SourceUnit.ofProgram p layout.prototypes = .ok u ∧
      text = u.headText layout.indentWidth ++ u.bodyText layout.indentWidth ∧
      Target.textSkeleton (u.bodyText layout.indentWidth) =
        p.outline.kinds.filter NodeKind.isControl := by
  have hshapely : p.Has Leaves.shapely :=
    Program.has_of_ofTokens Leaves.lawful_shapely (fun t => Token.shaped_of_mem_tokenize) hparsed
  obtain ⟨u, hunit, rfl⟩ := Program.exists_unit_of_generate hgenerated
  refine ⟨u, hunit, u.text_eq_append _, ?_⟩
  have hshows := Target.shows_bodyLines (hshapely.and hliterals) hunit
  rw [← p.skeleton_outline] at hshows
  exact hshows.textSkeleton_eq layout.indentWidth

instance : DecidablePred Leaves.unbroken.Holds
  | .name _ | .declared _ | .line _ => inferInstanceAs (Decidable True)
  | .literal l => inferInstanceAs (Decidable (l.value.kind = .charLiteral ∨
      l.value.kind = .stringLiteral → Target.OneLine l.text))

/-- A branch that joins an `else`, loops inside both, and a call of a method named after a loop. -/
def branchingSource : String :=
  "public class A \x7b void f() \x7b if (x) for (;;) A.while(\"do \x7b\"); " ++
    "else if (y) do z++; while (z); \x7d \x7d"

/-- The call of the method named after a loop is not taken for one. -/
theorem Program.generated_code_keeps_skeleton_branching :
    ∃ p text u, Program.ofText branchingSource = .ok p ∧ p.Has Leaves.unbroken ∧
      p.generate {} = .ok text ∧ Target.SourceUnit.ofProgram p true = .ok u ∧
      text = u.headText 4 ++ u.bodyText 4 ∧
      Target.textSkeleton (u.bodyText 4) = [.ifStmt, .forStmt, .ifStmt, .doWhileStmt] := by
  have hcheck : ((Program.ofText branchingSource).toOption.any fun p =>
      decide (p.Has Leaves.unbroken) && (p.generate {}).toOption.isSome &&
        decide (p.outline.kinds.filter NodeKind.isControl =
          [.ifStmt, .forStmt, .ifStmt, .doWhileStmt])) = true := by
    decide +kernel
  obtain ⟨p, hparsed, hcheck⟩ := (Option.any_eq_true _ _).1 hcheck
  simp only [Bool.and_eq_true, decide_eq_true_eq, Option.isSome_iff_exists] at hcheck
  obtain ⟨⟨hliterals, text, hgenerated⟩, hkinds⟩ := hcheck
  have hparsed : Program.ofText branchingSource = .ok p := eq_ok_of_toOption hparsed
  have hgenerated : p.generate {} = .ok text := eq_ok_of_toOption hgenerated
  obtain ⟨u, hunit, htext, hskeleton⟩ :=
    generated_code_keeps_skeleton branchingSource p hparsed hliterals {} text hgenerated
  exact ⟨p, text, u, hparsed, hliterals, hgenerated, hunit, htext, hskeleton.trans hkinds⟩

end ClassLang
