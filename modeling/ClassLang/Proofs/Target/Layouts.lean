import ClassLang.Proofs.Target.Demands
import ClassLang.Proofs.Target.Skeleton

set_option autoImplicit false

/-!
# Choices of layout

A layout says how wide the indentation is, and whether functions are announced before they are
defined. The first choice only changes the spaces at the starts of lines. The second one only puts a
block of prototypes in: writing them comes to nothing that writing the functions does not come to,
since each function starts with its signature. It calls for the same headers, and ends at the same
unsupported types.

## Main definitions

* `ClassLang.Target.SignedAs` — the signature of a method.
* `ClassLang.Target.prototypeBlock` — the prototypes with given signatures.
* `ClassLang.Target.unindented` — the lines of a text without the spaces in front of them.

## Main results

* `ClassLang.Target.exists_prototypes` — where functions are written, so are their prototypes.
* `ClassLang.Program.layouts_differ_in_spaces_and_prototypes` — what the choices change.
-/

namespace ClassLang

namespace Target

open Emit (adds_pure detached_pure)

/-! ## Prototypes -/

/-- The head of the function for `d` is `text`, whatever is needed before. -/
def SignedAs (d : MethodDecl) (text : String) : Prop :=
  ∀ needs, ((signatureText d).runFrom needs).1 = .ok text

/-- The methods that are announced. -/
def announced (ds : List MethodDecl) : List MethodDecl :=
  ds.filter fun d => d.name ≠ entryPoint

/-- The line of a prototype. -/
def prototypeLine (signature : String) : Line :=
  ⟨0, signature ++ ";"⟩

lemma signedAs_of_adds {d : MethodDecl} {text : String} {added : Set Demand}
    (h : (signatureText d).Adds (.ok text) added) : SignedAs d text := by
  intro needs
  obtain ⟨needs', hrun, -⟩ := h needs
  rw [hrun]

/-- **Where functions are written, so are their prototypes**, and these call for nothing else. -/
lemma exists_prototypes {env : Env} {ds : List MethodDecl} {functions : List (List Line)}
    {added : Set Demand} (h : (functionsLines env ds).Adds (.ok functions) added) :
    ∃ signatures called, List.Forall₂ SignedAs (announced ds) signatures ∧
      (prototypeLines ds).Adds (.ok (signatures.map prototypeLine)) called ∧ called ⊆ added := by
  induction ds generalizing functions added with
  | nil => exact ⟨[], ∅, .nil, adds_pure _, Set.empty_subset _⟩
  | cons d ds ih =>
    obtain ⟨lines, first, rest, hd, hrest, rfl⟩ := h.exists_of_bind (detached_functionLines env d)
      fun _ => (detached_functionsLines env ds).bind fun _ => detached_pure _
    obtain ⟨others, more, _, hds, -, rfl⟩ :=
      hrest.exists_of_bind (detached_functionsLines env ds) fun _ => detached_pure _
    obtain ⟨signature, head, body, hsignature, -, rfl⟩ :=
      hd.exists_of_bind (detached_signatureText d)
        fun _ => (detached_stmtsLines _ _ _).bind fun _ => detached_pure _
    obtain ⟨signatures, called, hsigned, hprototypes, hcalled⟩ := ih hds
    by_cases hentry : d.name = entryPoint
    · refine ⟨signatures, called, ?_, ?_, ?_⟩
      · rwa [announced, List.filter_cons_of_neg (by simpa using hentry)]
      · rwa [prototypeLines, if_pos hentry]
      · exact fun x hx => .inr (.inl (hcalled hx))
    · refine ⟨signature :: signatures, head ∪ (called ∪ ∅), ?_, ?_, ?_⟩
      · rw [announced, List.filter_cons_of_pos (by simpa using hentry)]
        exact .cons (signedAs_of_adds hsignature) hsigned
      · rw [prototypeLines, if_neg hentry]
        exact hsignature.bind (hprototypes.bind (adds_pure _))
      · rintro x (hx | hx | hx)
        · exact .inl (.inl hx)
        · exact .inr (.inl (hcalled hx))
        · cases hx

namespace SourceUnit

/-! ## Source files with and without prototypes -/

variable {p : Program}

/-- The parts of a source file for a program: they are generated with and without prototypes, and
call for the same; or they are not generated either way. -/
lemma emit_cases (p : Program) :
    (∃ globals signatures functions added,
      List.Forall₂ SignedAs (announced p.methods) signatures ∧
      (emit p false).Adds (.ok (globals, [], functions)) added ∧
      (emit p true).Adds (.ok (globals, signatures.map prototypeLine, functions)) added) ∨
    ∀ prototypes, ∃ e added, (emit p prototypes).Adds (.error e) added := by
  have hwithout : emit p false = (globalLines (Env.ofProgram p) p.fields >>= fun globals =>
      functionsLines (Env.ofProgram p) p.methods >>= fun functions =>
        pure (globals, [], functions)) := rfl
  have hwith : emit p true = (globalLines (Env.ofProgram p) p.fields >>= fun globals =>
      prototypeLines p.methods >>= fun heads =>
        functionsLines (Env.ofProgram p) p.methods >>= fun functions =>
          pure (globals, heads, functions)) := rfl
  obtain ⟨rglobals, called, hglobals⟩ := detached_globalLines (Env.ofProgram p) p.fields
  obtain ⟨rfunctions, more, hfunctions⟩ := detached_functionsLines (Env.ofProgram p) p.methods
  cases rglobals with
  | error e =>
    refine .inr fun prototypes => ?_
    cases prototypes with
    | false => exact ⟨e, called, hwithout ▸ hglobals.bind_error⟩
    | true => exact ⟨e, called, hwith ▸ hglobals.bind_error⟩
  | ok globals =>
    cases rfunctions with
    | error e =>
      refine .inr fun prototypes => ?_
      cases prototypes with
      | false => exact ⟨e, _, hwithout ▸ hglobals.bind hfunctions.bind_error⟩
      | true =>
        obtain ⟨rheads, announced, hheads⟩ := detached_prototypeLines p.methods
        cases rheads with
        | error e => exact ⟨e, _, hwith ▸ hglobals.bind hheads.bind_error⟩
        | ok heads => exact ⟨e, _, hwith ▸ hglobals.bind (hheads.bind hfunctions.bind_error)⟩
    | ok functions =>
      obtain ⟨signatures, announced, hsigned, hprototypes, hsubset⟩ := exists_prototypes hfunctions
      refine .inl ⟨globals, signatures, functions, called ∪ (more ∪ ∅), hsigned, ?_, ?_⟩
      · exact hwithout ▸ hglobals.bind (hfunctions.bind (adds_pure _))
      · have hunion : announced ∪ (more ∪ ∅) = more ∪ ∅ :=
          Set.union_eq_self_of_subset_left (hsubset.trans Set.subset_union_left)
        rw [← hunion]
        exact hwith ▸ hglobals.bind (hprototypes.bind (hfunctions.bind (adds_pure _)))

lemma ofProgram_of_adds {prototypes : Bool} {globals heads : List Line}
    {functions : List (List Line)} {added : Set Demand}
    (h : (emit p prototypes).Adds (.ok (globals, heads, functions)) added) :
    ∃ needs, needs.demands = startNeeds.demands ∪ added ∧
      ofProgram p prototypes = .ok ⟨needs, globals, heads, functions⟩ := by
  obtain ⟨needs, hrun, hneeds⟩ := h startNeeds
  exact ⟨needs, hneeds, by rw [ofProgram, hrun]⟩

lemma ofProgram_of_adds_error {prototypes : Bool} {e : Unsupported} {added : Set Demand}
    (h : (emit p prototypes).Adds (.error e) added) : ofProgram p prototypes = .error e := by
  obtain ⟨needs, hrun, -⟩ := h startNeeds
  rw [ofProgram, hrun]

/-- **Prototypes are all that is put in**: the other parts are the same, and either way there are
unsupported constructs or not. -/
lemma ofProgram_cases (p : Program) :
    (∃ u v signatures, List.Forall₂ SignedAs (announced p.methods) signatures ∧
      ofProgram p false = .ok u ∧ ofProgram p true = .ok v ∧ v.headLines = u.headLines ∧
      v.globals = u.globals ∧ u.prototypes = [] ∧ v.prototypes = signatures.map prototypeLine ∧
      v.functions = u.functions) ∨
    ∀ prototypes, ∃ e, ofProgram p prototypes = .error e := by
  rcases emit_cases p with ⟨globals, signatures, functions, added, hsigned, hwithout, hwith⟩ | herror
  · obtain ⟨needs, hneeds, hu⟩ := ofProgram_of_adds hwithout
    obtain ⟨needs', hneeds', hv⟩ := ofProgram_of_adds hwith
    have hdemands : needs'.demands = needs.demands := hneeds'.trans hneeds.symm
    refine .inl ⟨_, _, signatures, hsigned, hu, hv, ?_, rfl, rfl, rfl, rfl⟩
    simp only [headLines, Needs.sortedHeaders_congr hdemands, Needs.numberFormat_congr hdemands]
  · refine .inr fun prototypes => ?_
    obtain ⟨e, _, he⟩ := herror prototypes
    exact ⟨e, ofProgram_of_adds_error he⟩

/-! ## Their texts -/

lemma linesText_append (width : Nat) (front back : List Line) :
    linesText width (front ++ back) = linesText width front ++ linesText width back := by
  rw [linesText, List.map_append, String.join_append]
  rfl

/-- The headers, the helper and the global variables, as text. -/
def frontText (width : Nat) (u : SourceUnit) : String :=
  linesText width (u.headLines ++ paragraph u.globals)

/-- The functions, as text. -/
def functionsText (width : Nat) (u : SourceUnit) : String :=
  linesText width (spaced u.functions)

lemma text_eq (width : Nat) (u : SourceUnit) :
    u.text width =
      u.frontText width ++ linesText width (paragraph u.prototypes) ++ u.functionsText width := by
  rw [text_eq_append, headText, bodyText, bodyLines, frontText, functionsText, linesText_append,
    linesText_append, linesText_append, ← String.append_assoc, ← String.append_assoc]

end SourceUnit

/-- The prototypes with the given signatures: a line for each, and a blank line behind them if there
are any. -/
def prototypeBlock (signatures : List String) : String :=
  if signatures.isEmpty then "" else String.join (signatures.map (· ++ ";\n")) ++ "\n"

open SourceUnit (linesText paragraph linesText_append)

lemma linesText_prototypes (width : Nat) (signatures : List String) :
    linesText width (paragraph (signatures.map prototypeLine)) = prototypeBlock signatures := by
  have hline : ∀ text, Line.render width ⟨0, text⟩ = text := by
    intro text
    rw [Line.render, Nat.zero_mul]
    exact String.empty_append
  have hlines : linesText width (signatures.map prototypeLine) =
      String.join (signatures.map (· ++ ";\n")) := by
    rw [linesText, List.map_map]
    congr 2
    funext signature
    simp [prototypeLine, hline, String.append_assoc]
  have hblank : linesText width [⟨0, ""⟩] = "\n" := by
    simp [linesText, hline]
  rw [paragraph, prototypeBlock, List.isEmpty_map]
  split
  · rfl
  · rw [linesText_append, hlines, hblank]

/-! ## Indentation -/

/-- The lines of a text without the spaces in front of them. -/
def unindented (text : String) : List (List Char) :=
  (text.toList.splitOn '\n').map (List.dropWhile (· = ' '))

/-- Spaces in front of a text are in front of its first line. -/
lemma map_dropWhile_splitOn_replicate (n : Nat) (cs : List Char) :
    ((List.replicate n ' ' ++ cs).splitOn '\n').map (List.dropWhile (· = ' ')) =
      (cs.splitOn '\n').map (List.dropWhile (· = ' ')) := by
  induction n with
  | zero => rfl
  | succ n ih =>
    rw [List.replicate_succ, List.cons_append, List.splitOn_cons_eq_if_modifyHead,
      if_neg (by decide), ← ih]
    cases hlines : (List.replicate n ' ' ++ cs).splitOn '\n' with
    | nil => exact absurd hlines (List.splitOn_ne_nil _ _)
    | cons first rest => simp

/-- The width of the indentation is seen in the spaces at the starts of lines only. -/
lemma unindented_linesText (width width' : Nat) (lines : List Line) :
    unindented (linesText width lines) = unindented (linesText width' lines) := by
  induction lines with
  | nil => rfl
  | cons line lines ih =>
    have hsplit : ∀ width, unindented (linesText width (line :: lines)) =
        (line.text.toList.splitOn '\n').map (List.dropWhile (· = ' ')) ++
          unindented (linesText width lines) := by
      intro width
      have hchars : (linesText width (line :: lines)).toList =
          (List.replicate (line.depth * width) ' ' ++ line.text.toList) ++
            '\n' :: (linesText width lines).toList := by
        simp [linesText, Line.render, toList_pushn]
      rw [unindented, hchars, List.splitOn_append_cons_self, List.map_append,
        map_dropWhile_splitOn_replicate]
      rfl
    rw [hsplit, hsplit, ih]

end Target

open Target

/-! ## Programs -/

namespace Program

lemma generate_of_ofProgram {p : Program} {prototypes : Bool} {u : SourceUnit}
    (h : SourceUnit.ofProgram p prototypes = .ok u) (width : Nat) :
    p.generate ⟨width, prototypes⟩ = .ok (u.text width) := by
  rw [generate, h]
  rfl

lemma generate_of_ofProgram_error {p : Program} {prototypes : Bool} {e : Unsupported}
    (h : SourceUnit.ofProgram p prototypes = .error e) (width : Nat) :
    p.generate ⟨width, prototypes⟩ = .error e := by
  rw [generate, h]
  rfl

/-- A source file is generated for every layout or for none. -/
lemma isOk_generate_eq (p : Program) (layout layout' : Layout) :
    (p.generate layout).isOk = (p.generate layout').isOk := by
  have hall : ∃ answer, ∀ layout, (p.generate layout).isOk = answer := by
    rcases SourceUnit.ofProgram_cases p with ⟨u, v, -, -, hu, hv, -⟩ | herror
    · refine ⟨true, ?_⟩
      rintro ⟨width, _ | _⟩
      · rw [generate_of_ofProgram hu]
        rfl
      · rw [generate_of_ofProgram hv]
        rfl
    · refine ⟨false, ?_⟩
      rintro ⟨width, prototypes⟩
      obtain ⟨e, he⟩ := herror prototypes
      rw [generate_of_ofProgram_error he]
      rfl
  obtain ⟨answer, hanswer⟩ := hall
  rw [hanswer, hanswer]

/-- Without the spaces at the starts of lines, the width of the indentation does not matter. -/
lemma map_unindented_generate (p : Program) (width width' : Nat) (prototypes : Bool) :
    (p.generate ⟨width, prototypes⟩).map unindented =
      (p.generate ⟨width', prototypes⟩).map unindented := by
  cases hparts : SourceUnit.ofProgram p prototypes with
  | error e => rw [generate_of_ofProgram_error hparts, generate_of_ofProgram_error hparts]
  | ok u =>
    rw [generate_of_ofProgram hparts, generate_of_ofProgram hparts]
    exact congrArg Except.ok (unindented_linesText width width' (u.headLines ++ u.bodyLines))

/-- **Layouts differ in spaces and prototypes only.** A source file is generated for one layout if it
is for another. With and without prototypes, the width of the indentation changes nothing but the
spaces at the starts of lines. The prototypes are one block behind the global variables and before
the first function: the signature of each method other than the entry point, in their order, with a
semicolon behind it, and at last a blank line. -/
theorem layouts_differ_in_spaces_and_prototypes (p : Program) :
    (∀ layout layout' : Layout, (p.generate layout).isOk = (p.generate layout').isOk) ∧
    (∀ width width' prototypes, (p.generate ⟨width, prototypes⟩).map unindented =
      (p.generate ⟨width', prototypes⟩).map unindented) ∧
    ∀ u, SourceUnit.ofProgram p false = .ok u → ∃ signatures,
      List.Forall₂ SignedAs (announced p.methods) signatures ∧ ∀ width,
        p.generate ⟨width, false⟩ = .ok (u.frontText width ++ u.functionsText width) ∧
        p.generate ⟨width, true⟩ =
          .ok (u.frontText width ++ prototypeBlock signatures ++ u.functionsText width) := by
  refine ⟨isOk_generate_eq p, map_unindented_generate p, fun u hu => ?_⟩
  rcases SourceUnit.ofProgram_cases p with
    ⟨_, v, signatures, hsigned, hu', hv, hhead, hglobals, hnone, hprototypes, hfunctions⟩ | herror
  · obtain rfl := Except.ok.inj (hu.symm.trans hu')
    refine ⟨signatures, hsigned, fun width => ⟨?_, ?_⟩⟩
    · have hempty : SourceUnit.linesText width (SourceUnit.paragraph []) = "" := rfl
      rw [generate_of_ofProgram hu, SourceUnit.text_eq, hnone, hempty, String.append_empty]
    · rw [generate_of_ofProgram hv, SourceUnit.text_eq, hprototypes, linesText_prototypes,
        SourceUnit.frontText, SourceUnit.functionsText, hhead, hglobals, hfunctions]
      rfl
  · obtain ⟨e, he⟩ := herror false
    cases hu.symm.trans he

/-- A method with an array as parameter, which calls for a header. -/
def announcedMethod : MethodDecl where
  name := "f"
  returnType := .simple "double"
  params := [⟨"x", .mk "int" [] 1, 1⟩]
  body := .mk 1 [.ret 1 (some (.binary 1 (.arith .mod) (.var 1 "d") (.var 1 "d")))]
  isStatic := true
  line := 1

/-- A class with a field, the entry point and this method. -/
def announcing : Program :=
  ⟨[⟨"A", [.field ⟨"d", .simple "double", none, true, 1⟩,
    .method ⟨entryPoint, .simple "void", [], .mk 1 [], true, 1⟩, .method announcedMethod], 1⟩], 1⟩

/-- The method is announced, and the entry point is not. -/
theorem layouts_differ_in_spaces_and_prototypes_announcing :
    ∃ u, SourceUnit.ofProgram announcing false = .ok u ∧ ∀ width,
      announcing.generate ⟨width, false⟩ = .ok (u.frontText width ++ u.functionsText width) ∧
      announcing.generate ⟨width, true⟩ = .ok (u.frontText width ++
        "double f(std::vector<int>& x);\n\n" ++ u.functionsText width) := by
  have hok : (SourceUnit.ofProgram announcing false).isOk = true := by decide +kernel
  cases hparts : SourceUnit.ofProgram announcing false with
  | error e =>
    rw [hparts] at hok
    cases hok
  | ok u =>
    obtain ⟨-, -, hblock⟩ := layouts_differ_in_spaces_and_prototypes announcing
    obtain ⟨signatures, hsigned, htexts⟩ := hblock u hparts
    have hannounced : announced announcing.methods = [announcedMethod] := rfl
    rw [hannounced] at hsigned
    cases hsigned with
    | cons hfirst hrest =>
      cases hrest
      obtain rfl := Except.ok.inj (hfirst {})
      exact ⟨u, rfl, htexts⟩

end Program

end ClassLang
