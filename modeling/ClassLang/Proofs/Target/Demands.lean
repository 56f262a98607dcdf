import ClassLang.Proofs.Target.RenderedSites
import Mathlib.Data.Set.Insert

set_option autoImplicit false

/-!
# What generated code calls for

The generator collects headers on the way, but never asks which ones it has. So each of its
computations has one result, and adds the same to whatever is needed already.

## Main definitions

* `ClassLang.Target.Demand` — what code may call for.
* `ClassLang.Target.Needs.demands` — all that is called for.
* `ClassLang.Target.Emit.Adds` — the result of a computation, and what it adds.
* `ClassLang.Target.Emit.Detached` — both are the same from all needs.
* `ClassLang.Target.Supported` — the types that have a text.
* `ClassLang.Target.Mentions` — the classes that occur in a text.

## Main results

* `ClassLang.Target.typeText_supported_and_demands` — types, and the headers of their classes.
* `ClassLang.Target.detached_render`, `ClassLang.Target.detached_stmtLines` — expressions and
  statements.
* `ClassLang.Target.detached_functionsLines`, `ClassLang.Target.detached_globalLines` — functions and
  global variables.
-/

namespace ClassLang.Target

/-- What generated code may call for. -/
inductive Demand where
  | header (h : Header)
  | numberFormat

/-- The demand is among the needs. -/
def Demand.Known (needs : Needs) : Demand → Prop
  | .header h => h ∈ needs.headers
  | .numberFormat => needs.numberFormat = true

/-- All that is called for. -/
def Needs.demands (needs : Needs) : Set Demand :=
  {d | d.Known needs}

lemma Needs.demands_addHeader (needs : Needs) (h : Header) :
    (needs.addHeader h).demands = needs.demands ∪ {.header h} := by
  ext d
  rw [Set.mem_union, Set.mem_singleton_iff, addHeader]
  split
  next hmem =>
    refine ⟨.inl, ?_⟩
    rintro (hd | rfl)
    · exact hd
    · exact hmem
  next => cases d <;> simp [Needs.demands, Demand.Known]

/-- Where the same is called for, the same headers are included. -/
lemma Needs.sortedHeaders_congr {needs needs' : Needs} (h : needs.demands = needs'.demands) :
    needs.sortedHeaders = needs'.sortedHeaders := by
  have hmem : ∀ header, header ∈ needs.headers ↔ header ∈ needs'.headers := fun header =>
    Set.ext_iff.1 h (.header header)
  simp only [sortedHeaders, hmem]

lemma Needs.numberFormat_congr {needs needs' : Needs} (h : needs.demands = needs'.demands) :
    needs.numberFormat = needs'.numberFormat :=
  Bool.eq_iff_iff.2 (Set.ext_iff.1 h .numberFormat)

namespace Emit

section Rules

variable {α β : Type} {p q : Emit α} {f : α → Emit β} {r r' : Except Unsupported α}
  {added added' : Set Demand}

/-- From all needs, the computation has the result `r` and adds `added` to them. -/
def Adds (p : Emit α) (r : Except Unsupported α) (added : Set Demand) : Prop :=
  ∀ needs, ∃ needs', p.runFrom needs = (r, needs') ∧ needs'.demands = needs.demands ∪ added

lemma adds_pure (x : α) : Adds (pure x) (.ok x) ∅ :=
  fun needs => ⟨needs, rfl, (Set.union_empty _).symm⟩

lemma adds_throw (e : Unsupported) : Adds (throw e : Emit α) (.error e) ∅ :=
  fun needs => ⟨needs, rfl, (Set.union_empty _).symm⟩

lemma adds_need (h : Header) : Adds (need h) (.ok ()) {.header h} :=
  fun needs => ⟨needs.addHeader h, rfl, needs.demands_addHeader h⟩

lemma Adds.bind {x : α} {s : Except Unsupported β} (hp : p.Adds (.ok x) added)
    (hf : (f x).Adds s added') : (p >>= f).Adds s (added ∪ added') := by
  intro needs
  obtain ⟨between, hfirst, hbetween⟩ := hp needs
  obtain ⟨needs', hrest, hneeds'⟩ := hf between
  refine ⟨needs', ?_, ?_⟩
  · rw [runFrom_bind, hfirst]
    exact hrest
  · rw [hneeds', hbetween, Set.union_assoc]

lemma Adds.bind_error {e : Unsupported} (hp : p.Adds (.error e) added) :
    (p >>= f).Adds (.error e) added := by
  intro needs
  obtain ⟨needs', hrun, hneeds'⟩ := hp needs
  refine ⟨needs', ?_, hneeds'⟩
  rw [runFrom_bind, hrun]

/-- The result and what is added are determined. -/
lemma Adds.unique (h : p.Adds r added) (h' : p.Adds r' added') : r = r' ∧ added = added' := by
  have hnothing : ({} : Needs).demands = ∅ := by
    ext d
    cases d <;> simp [Needs.demands, Demand.Known]
  obtain ⟨needs, hrun, hneeds⟩ := h {}
  obtain ⟨needs', hrun', hneeds'⟩ := h' {}
  rw [hnothing, Set.empty_union] at hneeds hneeds'
  obtain ⟨rfl, rfl⟩ := Prod.mk.inj (hrun.symm.trans hrun')
  exact ⟨rfl, hneeds.symm.trans hneeds'⟩

/-- What the computation does is the same from all needs. -/
def Detached (p : Emit α) : Prop :=
  ∃ r added, p.Adds r added

lemma detached_pure (x : α) : Detached (pure x) :=
  ⟨_, _, adds_pure x⟩

lemma detached_throw (e : Unsupported) : Detached (throw e : Emit α) :=
  ⟨_, _, adds_throw e⟩

lemma detached_need (h : Header) : Detached (need h) :=
  ⟨_, _, adds_need h⟩

lemma Detached.bind (hp : Detached p) (hf : ∀ x, Detached (f x)) : Detached (p >>= f) := by
  obtain ⟨r, added, hp⟩ := hp
  cases r with
  | error e => exact ⟨_, _, hp.bind_error⟩
  | ok x =>
    obtain ⟨s, added', hf⟩ := hf x
    exact ⟨s, _, hp.bind hf⟩

lemma Detached.map (hp : Detached p) (g : α → β) : Detached (g <$> p) := by
  rw [← bind_pure_comp]
  exact hp.bind fun x => detached_pure (g x)

lemma Detached.ite {c : Prop} [Decidable c] (hp : Detached p) (hq : Detached q) :
    Detached (if c then p else q) := by
  split
  · exact hp
  · exact hq

/-- Two computations one after the other that have a result. -/
lemma Adds.exists_of_bind {y : β} (h : (p >>= f).Adds (.ok y) added) (hp : Detached p)
    (hf : ∀ x, Detached (f x)) :
    ∃ x first rest, p.Adds (.ok x) first ∧ (f x).Adds (.ok y) rest ∧ added = first ∪ rest := by
  obtain ⟨r, first, hp⟩ := hp
  cases r with
  | error e => cases (h.unique hp.bind_error).1
  | ok x =>
    obtain ⟨s, rest, hrest⟩ := hf x
    obtain ⟨rfl, rfl⟩ := h.unique (hp.bind hrest)
    exact ⟨x, first, rest, hp, hrest, rfl⟩

lemma detached_needNumberFormat : Detached needNumberFormat := by
  have hmodify : Adds (modify fun needs : Needs => { needs with numberFormat := true }) (.ok ())
      {.numberFormat} := by
    refine fun needs => ⟨_, rfl, ?_⟩
    ext d
    cases d <;> simp [Needs.demands, Demand.Known]
  refine Detached.bind ⟨_, _, hmodify⟩ fun _ => ?_
  exact (detached_need _).bind fun _ => detached_need _

end Rules

end Emit

open Emit (Adds adds_pure adds_throw adds_need Detached detached_pure detached_throw detached_need)

/-! ## Types -/

/-- The types that have a text, at any number of dimensions: those with a name of a primitive type,
of a class that wraps one, of `void` or of strings, lists of one such type, and maps between two. -/
inductive Supported : TypeExpr → Prop
  | plain {name : String} (h : name ∈ (Builtin.primitives ++ Builtin.boxed).map Prod.fst)
      (args : List TypeExpr) (dimensions : Nat) : Supported (.mk name args dimensions)
  | list {element : TypeExpr} (helement : Supported element) (dimensions : Nat) :
      Supported (.mk "ArrayList" [element] dimensions)
  | map {key value : TypeExpr} (hkey : Supported key) (hvalue : Supported value)
      (dimensions : Nat) : Supported (.mk "HashMap" [key, value] dimensions)

lemma isSome_primitiveText?_iff {name : String} : (primitiveText? name).isSome = true ↔
    name ∈ (Builtin.primitives ++ Builtin.boxed).map Prod.fst := by
  have htable : ((Builtin.primitives ++ Builtin.boxed).map Prod.fst).all
      (fun name => (primitiveText? name).isSome) = true := by decide
  refine ⟨fun h => ?_, List.all_eq_true.1 htable name⟩
  by_contra hmem
  have hunboxed : unboxed name = name := by
    unfold unboxed
    split
    case h_6 => rfl
    all_goals exact absurd (by decide) hmem
  rw [primitiveText?, hunboxed] at h
  split at h
  case h_8 => cases h
  all_goals exact absurd (by decide) hmem

/-- A type is supported if its name has a text, or if it is a container of supported types. -/
lemma supported_iff {name : String} {args : List TypeExpr} {dimensions : Nat} :
    Supported (.mk name args dimensions) ↔ (primitiveText? name).isSome = true ∨
      ∃ c, container? name = some c ∧ args.length = c.arity ∧ ∀ arg ∈ args, Supported arg := by
  constructor
  · intro h
    cases h with
    | plain h => exact .inl (isSome_primitiveText?_iff.2 h)
    | list helement => exact .inr ⟨_, rfl, rfl, by simpa using helement⟩
    | map hkey hvalue => exact .inr ⟨_, rfl, rfl, by simpa using ⟨hkey, hvalue⟩⟩
  · rintro (h | ⟨c, hc, hlength, hargs⟩)
    · exact .plain (isSome_primitiveText?_iff.1 h) args dimensions
    · unfold container? at hc
      split at hc
      · obtain rfl := Option.some.inj hc
        obtain ⟨element, rfl⟩ := List.length_eq_one_iff.1 hlength
        exact .list (hargs _ (by simp)) dimensions
      · obtain rfl := Option.some.inj hc
        obtain ⟨key, value, rfl⟩ := List.length_eq_two.1 hlength
        exact .map (hargs _ (by simp)) (hargs _ (by simp)) dimensions
      · cases hc

/-- The class of the standard library that a header is included for. -/
def Demand.className? : Demand → Option String
  | .header .string => some "std::string"
  | .header .unorderedMap => some "std::unordered_map"
  | .header .vector => some "std::vector"
  | _ => none

/-- The class that is called for occurs in the text. -/
def Demand.OccursIn (d : Demand) (cs : List Char) : Prop :=
  ∃ name ∈ d.className?, name.toList <:+: cs

/-- Whatever follows the text, the classes that occur in it are those that are called for. -/
def Mentions (text : String) (added : Set Demand) : Prop :=
  ∀ d rest, d.OccursIn (text.toList ++ rest) ↔ d ∈ added ∨ d.OccursIn rest

variable {text : String} {added added' : Set Demand}

lemma Mentions.append {text' : String} (h : Mentions text added) (h' : Mentions text' added') :
    Mentions (text ++ text') (added ∪ added') := by
  intro d rest
  rw [String.toList_append, List.append_assoc, h, h', Set.mem_union, or_assoc]

/-- All names of classes start with the same letter. -/
lemma Demand.exists_of_className? {d : Demand} {name : String} (h : name ∈ d.className?) :
    ∃ more, name.toList = 's' :: more := by
  unfold Demand.className? at h
  split at h
  case h_4 => cases h
  all_goals
    obtain rfl := Option.some.inj h
    exact ⟨_, rfl⟩

lemma mentions_of_not_mem (h : 's' ∉ text.toList) : Mentions text ∅ := by
  intro d rest
  simp only [Set.mem_empty_iff_false, false_or, Demand.OccursIn]
  refine exists_congr fun name => and_congr_right fun hname => ?_
  obtain ⟨more, hmore⟩ := Demand.exists_of_className? hname
  rw [hmore]
  generalize text.toList = cs at h
  induction cs with
  | nil => rfl
  | cons c cs ih =>
    obtain ⟨hc, hcs⟩ := List.ne_and_not_mem_of_not_mem_cons h
    rw [List.cons_append, List.infix_cons_iff, List.cons_prefix_cons, ih hcs]
    simp [hc]

lemma mentions_class {h : Header} {name : String} (hname : (Demand.header h).className? = some name) :
    Mentions name {.header h} := by
  intro d rest
  cases h <;> simp only [Demand.className?] at hname
  all_goals cases hname
  all_goals
    rcases d with (_ | _ | _ | _ | _ | _ | _) | _ <;>
    simp [Demand.OccursIn, Demand.className?, List.infix_cons_iff, List.cons_prefix_cons]

lemma Mentions.template {template : String} {args : List String} (h : Mentions template added)
    (hargs : Mentions (", ".intercalate args) added') :
    Mentions (templateText template args) (added ∪ added') := by
  have hopen : Mentions "<" ∅ := mentions_of_not_mem (by decide)
  have hclose : Mentions ">" ∅ := mentions_of_not_mem (by decide)
  simpa [templateText] using ((h.append hopen).append hargs).append hclose

/-- The header that dimensions call for. -/
def dimensionDemand (dimensions : Nat) : Set Demand :=
  if dimensions > 0 then {.header .vector} else ∅

lemma Mentions.vector {element : String} (h : Mentions element added) (dimensions : Nat) :
    Mentions (vectorText element dimensions) (added ∪ dimensionDemand dimensions) := by
  induction dimensions with
  | zero => simpa [dimensionDemand, vectorText] using h
  | succ n ih =>
    have hvector : Mentions "std::vector" {.header .vector} := mentions_class rfl
    have hset : {.header .vector} ∪ (added ∪ dimensionDemand n) =
        added ∪ dimensionDemand (n + 1) := by
      ext d
      cases n <;> simp [dimensionDemand, or_comm]
    exact hset ▸ hvector.template ih

lemma mentions_primitiveText? {name : String} (h : primitiveText? name = some text) :
    Mentions text (if text = "std::string" then {.header .string} else ∅) := by
  unfold primitiveText? at h
  split at h
  case h_7 =>
    obtain rfl := Option.some.inj h
    exact mentions_class rfl
  case h_8 => cases h
  all_goals
    obtain rfl := Option.some.inj h
    exact mentions_of_not_mem (by decide)

lemma mentions_of_container? {name : String} {c : Container} (h : container? name = some c) :
    Mentions c.template {.header c.header} := by
  unfold container? at h
  split at h
  case h_3 => cases h
  all_goals
    obtain rfl := Option.some.inj h
    exact mentions_class rfl

/-- From all needs, the computation has a result if `P` holds, and adds what the text of the result
mentions. Otherwise it has none. -/
inductive Emit.Writes {α : Type} (p : Emit α) (P : Prop) (textOf : α → String) : Prop
  | ok {x : α} {added : Set Demand} (hadds : p.Adds (.ok x) added) (h : P)
      (hmentions : Mentions (textOf x) added)
  | error {e : Unsupported} {added : Set Demand} (hadds : p.Adds (.error e) added) (h : ¬ P)

mutual

theorem writes_typeText : (type : TypeExpr) → (typeText type).Writes (Supported type) id
  | .mk name args dimensions => by
    have hvector : ∀ element, (do
        if dimensions > 0 then Emit.need .vector
        return vectorText element dimensions : Emit String).Adds
          (.ok (vectorText element dimensions)) (dimensionDemand dimensions) := by
      intro element
      unfold dimensionDemand
      split
      · rw [← Set.union_empty {Demand.header .vector}]
        exact (adds_need .vector).bind (adds_pure _)
      · exact adds_pure _
    rw [typeText]
    cases htext : primitiveText? name with
    | some text =>
      refine .ok ?_ (supported_iff.2 (.inl (by simp [htext])))
        ((mentions_primitiveText? htext).vector dimensions)
      dsimp only
      split
      · exact (adds_need .string).bind (hvector text)
      · rw [Set.empty_union]
        exact hvector text
    | none =>
      cases hcontainer : container? name with
      | none =>
        refine .error (adds_throw _).bind_error fun h => ?_
        simp [supported_iff, htext, hcontainer] at h
      | some c =>
        by_cases hlength : args.length = c.arity
        · have hsupported : Supported (.mk name args dimensions) ↔ ∀ arg ∈ args, Supported arg := by
            simp [supported_iff, htext, hcontainer, hlength]
          simp only [ne_eq, hlength, not_true_eq_false, if_false]
          rw [hsupported]
          cases writes_typeTexts args with
          | ok hadds hargs hmentions =>
            refine .ok ((adds_need _).bind (hadds.bind (hvector _))) hargs ?_
            rw [← Set.union_assoc]
            exact ((mentions_of_container? hcontainer).template hmentions).vector dimensions
          | error hadds hargs => exact .error ((adds_need _).bind hadds.bind_error) hargs
        · simp only [ne_eq, hlength, not_false_eq_true, if_true]
          refine .error (adds_throw _).bind_error fun h => ?_
          simp [supported_iff, htext, hcontainer, hlength] at h

theorem writes_typeTexts : (types : List TypeExpr) →
    (typeTexts types).Writes (∀ type ∈ types, Supported type) (", ".intercalate ·)
  | [] => .ok (adds_pure _) (List.forall_mem_nil _) (mentions_of_not_mem (by simp))
  | type :: types => by
    rw [typeTexts, List.forall_mem_cons]
    cases writes_typeText type with
    | error hadds h => exact .error hadds.bind_error fun hall => h hall.1
    | @ok text added hadds h hmentions =>
      cases writes_typeTexts types with
      | error hadds' h' => exact .error (hadds.bind hadds'.bind_error) fun hall => h' hall.2
      | @ok texts added' hadds' h' hmentions' =>
        refine .ok (hadds.bind (hadds'.bind (adds_pure _))) ⟨h, h'⟩ ?_
        rw [Set.union_empty]
        cases texts with
        | nil => simpa using hmentions.append hmentions'
        | cons next texts =>
          have hcomma : Mentions ", " ∅ := mentions_of_not_mem (by decide)
          rw [String.intercalate_cons_cons]
          simpa using (hmentions.append hcomma).append hmentions'

end

lemma detached_typeText (type : TypeExpr) : Detached (typeText type) := by
  cases writes_typeText type with
  | ok hadds | error hadds => exact ⟨_, _, hadds⟩

/-- **Types call for the headers of the classes that occur in their texts.** A type has a text if and
only if it is supported. What is called for then is what was called for before, and the headers of
the classes that occur in the text. -/
theorem typeText_supported_and_demands (type : TypeExpr) (needs : Needs) :
    ((∃ text, ((typeText type).runFrom needs).1 = .ok text) ↔ Supported type) ∧
      ∀ text, ((typeText type).runFrom needs).1 = .ok text →
        ((typeText type).runFrom needs).2.demands =
          needs.demands ∪ {d | d.OccursIn text.toList} := by
  cases writes_typeText type with
  | @ok text added hadds h hmentions =>
    have hadded : added = {d | d.OccursIn text.toList} := by
      ext d
      have hnothing : ¬ d.OccursIn [] := by
        rintro ⟨name, hname, hinfix⟩
        obtain ⟨more, hmore⟩ := Demand.exists_of_className? hname
        rw [hmore, List.infix_nil] at hinfix
        cases hinfix
      simpa [hnothing] using (hmentions d []).symm
    obtain ⟨needs', hrun, hneeds'⟩ := hadds needs
    rw [hrun]
    refine ⟨⟨fun _ => h, fun _ => ⟨text, rfl⟩⟩, ?_⟩
    rintro _ ⟨⟩
    rw [hneeds', hadded]
  | error hadds h =>
    obtain ⟨needs', hrun, -⟩ := hadds needs
    rw [hrun]
    refine ⟨⟨?_, fun hsupported => absurd hsupported h⟩, ?_⟩
    · rintro ⟨_, ⟨⟩⟩
    · rintro _ ⟨⟩

/-! ## Expressions -/

variable {env : Env}

lemma detached_literalText (l : Literal) : Detached (literalText l) := by
  unfold literalText
  split
  case h_4 => exact detached_throw _
  all_goals exact detached_pure _

lemma detached_emptyValue (type : TypeExpr) : Detached (emptyValue type) :=
  (detached_typeText type).bind fun _ => detached_pure _

lemma detached_numberText (text : String) (digits : Nat) : Detached (numberText text digits) :=
  Emit.detached_needNumberFormat.bind fun _ => detached_pure _

lemma detached_stringText (e : Expr) (text : String) : Detached (stringText env e text) := by
  unfold stringText
  split
  case h_4 | h_5 => exact detached_numberText _ _
  all_goals exact detached_pure _

lemma detached_printedText (e : Expr) (text : String) : Detached (printedText env e text) := by
  unfold printedText
  split
  case h_2 | h_3 => exact detached_numberText _ _
  all_goals exact detached_pure _

lemma detached_printEnd (name : String) : Detached (printEnd name) := by
  unfold printEnd
  split
  case h_3 => exact detached_throw _
  all_goals exact detached_pure _

/-- The text of an expression, made to fit its place. -/
lemma detached_fit (e : Expr) (text : String) (place : Place) :
    Detached (do return [← place.fit env e text]) := by
  have hfit : Detached (place.fit env e text) := by
    cases place with
    | alone => exact detached_pure _
    | summand first => exact .ite (detached_pure _) (detached_stringText _ _)
    | printed => exact detached_printedText _ _
  exact hfit.bind fun _ => detached_pure _

mutual

theorem detached_render (env : Env) : (e : Expr) → ∀ place : Place, Detached (render env place e)
  | .literal _ l, _ => by
    rw [render]
    exact (detached_literalText l).bind fun _ => detached_fit _ _ _
  | .var _ _, _ => by
    rw [render]
    exact detached_fit _ _ _
  | .binary _ op left right, _ => by
    rw [render]
    refine .ite ?_ ?_
    · exact (detached_render env left _).bind fun _ =>
        (detached_render env right _).bind fun _ => detached_pure _
    · refine (detached_render env left _).bind fun _ => (detached_render env right _).bind fun _ => ?_
      cases op with
      | assign arith =>
        cases arith with
        | add =>
          exact .ite ((detached_stringText _ _).bind fun _ => detached_fit _ _ _)
            ((detached_pure _).bind fun _ => detached_fit _ _ _)
        | _ => exact detached_fit _ _ _
      | arith arith =>
        cases arith with
        | mod => exact .ite ((detached_need _).bind fun _ => detached_fit _ _ _) (detached_fit _ _ _)
        | _ => exact detached_fit _ _ _
      | _ => exact detached_fit _ _ _
  | .unary _ _ operand, _ => by
    rw [render]
    exact (detached_render env operand _).bind fun _ => detached_fit _ _ _
  | .call _ _ args, _ => by
    rw [render]
    exact (detached_renderAll env args).bind fun _ => detached_fit _ _ _
  | .methodCall _ receiver name args, _ => by
    rw [render]
    refine .ite ?_ (.ite ?_ ?_)
    · refine (detached_printEnd name).bind fun _ => ?_
      cases args with
      | nil => exact (detached_pure _).bind fun _ => detached_fit _ _ _
      | cons arg _ => exact (detached_render env arg _).bind fun _ => detached_fit _ _ _
    · exact (detached_renderAll env args).bind fun _ => detached_fit _ _ _
    · exact (detached_render env receiver _).bind fun _ =>
        (detached_renderAll env args).bind fun _ => detached_fit _ _ _
  | .index _ array key, _ => by
    rw [render]
    exact (detached_render env array _).bind fun _ =>
      (detached_render env key _).bind fun _ => detached_fit _ _ _
  | .field _ object _, _ => by
    rw [render]
    exact .ite (detached_fit _ _ _) ((detached_render env object _).bind fun _ => detached_fit _ _ _)
  | .newObject _ type _, _ => by
    rw [render]
    exact .ite ((detached_pure _).bind fun _ => detached_fit _ _ _)
      ((detached_emptyValue type).bind fun _ => detached_fit _ _ _)
  | .newArray _ type size _, _ => by
    rw [render]
    exact (detached_typeText type).bind fun _ =>
      (detached_render env size _).bind fun _ => detached_fit _ _ _
  | .assign _ target value, _ => by
    rw [render]
    refine (detached_render env target _).bind fun _ => ?_
    split
    · exact (detached_emptyValue _).bind fun _ => detached_fit _ _ _
    · exact ((detached_render env value _).map _).bind fun _ => detached_fit _ _ _
  | .arrayInit _ elements, _ => by
    rw [render]
    exact (detached_renderAll env elements).bind fun _ => detached_fit _ _ _

theorem detached_renderAll (env : Env) : (es : List Expr) → Detached (renderAll env es)
  | [] => detached_pure _
  | e :: es => by
    rw [renderAll]
    exact (detached_render env e _).bind fun _ =>
      (detached_renderAll env es).bind fun _ => detached_pure _

end

lemma detached_bareText (e : Expr) : Detached (bareText env e) :=
  ((detached_render env e _).bind fun _ => detached_pure _).bind fun _ => detached_pure _

lemma detached_valueText (type : Option TypeExpr) (e : Expr) : Detached (valueText env type e) := by
  unfold valueText
  split
  · exact detached_emptyValue _
  · exact detached_bareText e

/-! ## Statements -/

lemma detached_declarationText (type : TypeExpr) (name : String) (init : Option Expr) :
    Detached (declarationText env type name init) := by
  refine (detached_typeText type).bind fun _ => ?_
  cases init with
  | none => exact detached_pure _
  | some value =>
    dsimp only
    split
    · exact detached_pure _
    · exact (detached_valueText _ _).bind fun _ => detached_pure _

lemma detached_initText (init : Option ForInit) : Detached (initText env init) := by
  rcases init with _ | d | e
  · exact detached_pure _
  · exact detached_declarationText _ _ _
  · exact detached_bareText e

lemma detached_optionalText (o : Option Expr) : Detached (optionalText env o) := by
  cases o with
  | none => exact detached_pure _
  | some e => exact detached_bareText e

lemma detached_labelText (arm : SwitchArm) : Detached (labelText env arm) := by
  cases arm with
  | labelled _ label _ => exact (detached_bareText label).bind fun _ => detached_pure _
  | otherwise => exact detached_pure _

lemma detached_returnText (value : Option Expr) : Detached (returnText env value) := by
  cases value with
  | none => exact detached_pure _
  | some e => exact (detached_valueText _ e).bind fun _ => detached_pure _

mutual

theorem detached_stmtLines : (s : Stmt) → ∀ (env : Env) (depth : Nat) (lead : String),
    Detached (stmtLines env depth lead s)
  | .varDecl d, _, _, _ => by
    rw [stmtLines]
    exact (detached_declarationText _ _ _).bind fun _ => detached_pure _
  | .block body, _, _, _ => by
    rw [stmtLines]
    exact (detached_blockLines body _ _).bind fun _ => detached_pure _
  | .ifThen _ c body, _, _, _ => by
    rw [stmtLines]
    exact (detached_bareText c).bind fun _ =>
      (detached_blockLines body _ _).bind fun _ => detached_pure _
  | .ifElse _ c body other, _, _, _ => by
    rw [stmtLines]
    exact (detached_bareText c).bind fun _ => (detached_blockLines body _ _).bind fun _ =>
      (detached_elseLines other _ _).bind fun _ => detached_pure _
  | .whileLoop _ c body, _, _, _ => by
    rw [stmtLines]
    exact (detached_bareText c).bind fun _ =>
      (detached_blockLines body _ _).bind fun _ => detached_pure _
  | .doWhile _ body c, _, _, _ => by
    rw [stmtLines]
    exact (detached_blockLines body _ _).bind fun _ =>
      (detached_bareText c).bind fun _ => detached_pure _
  | .forLoop _ init c update body, _, _, _ => by
    rw [stmtLines]
    exact (detached_initText init).bind fun _ => (detached_optionalText c).bind fun _ =>
      (detached_optionalText update).bind fun _ =>
        (detached_blockLines body _ _).bind fun _ => detached_pure _
  | .switch _ c arms, _, _, _ => by
    rw [stmtLines]
    exact (detached_bareText c).bind fun _ =>
      (detached_armsLines arms _ _).bind fun _ => detached_pure _
  | .ret _ value, _, _, _ => by
    rw [stmtLines]
    exact (detached_returnText value).bind fun _ => detached_pure _
  | .expr e, _, _, _ => by
    rw [stmtLines]
    exact (detached_bareText e).bind fun _ => detached_pure _
  | .breakOff _, _, _, _ | .continueOn _, _, _, _ => detached_pure _

theorem detached_elseLines : (body : Block) → ∀ (env : Env) (depth : Nat),
    Detached (elseLines env depth body)
  | .mk _ [], _, _ => (detached_stmtsLines [] _ _).bind fun _ => detached_pure _
  | .mk _ [s], _, _ =>
    .ite (detached_stmtLines s _ _ _) ((detached_stmtLines s _ _ _).bind fun _ => detached_pure _)
  | .mk _ (s :: s' :: ss), _, _ =>
    (detached_stmtsLines (s :: s' :: ss) _ _).bind fun _ => detached_pure _

theorem detached_stmtsLines : (ss : List Stmt) → ∀ (env : Env) (depth : Nat),
    Detached (stmtsLines env depth ss)
  | [], _, _ => detached_pure _
  | s :: ss, _, _ => by
    rw [stmtsLines]
    exact (detached_stmtLines s _ _ _).bind fun _ =>
      (detached_stmtsLines ss _ _).bind fun _ => detached_pure _

theorem detached_blockLines : (body : Block) → ∀ (env : Env) (depth : Nat),
    Detached (blockLines env depth body)
  | .mk _ ss, _, _ => detached_stmtsLines ss _ _

theorem detached_armsLines : (arms : List SwitchArm) → ∀ (env : Env) (depth : Nat),
    Detached (armsLines env depth arms)
  | [], _, _ => detached_pure _
  | arm :: arms, _, _ => by
    rw [armsLines]
    exact (detached_armLines arm _ _).bind fun _ =>
      (detached_armsLines arms _ _).bind fun _ => detached_pure _

theorem detached_armLines : (arm : SwitchArm) → ∀ (env : Env) (depth : Nat),
    Detached (armLines env depth arm)
  | .labelled line label body, _, _ => by
    rw [armLines]
    exact (detached_labelText _).bind fun _ => (detached_blockLines body _ _).bind fun _ =>
      .ite (detached_pure _) (detached_pure _)
  | .otherwise line body, _, _ => by
    rw [armLines]
    exact (detached_labelText _).bind fun _ => (detached_blockLines body _ _).bind fun _ =>
      .ite (detached_pure _) (detached_pure _)

end

/-! ## Declarations -/

lemma detached_parameterTexts : ∀ ps : List Parameter, Detached (parameterTexts ps)
  | [] => detached_pure _
  | p :: ps => by
    have hp : Detached (parameterText p) :=
      (detached_typeText p.type).bind fun _ => .ite (detached_pure _) (detached_pure _)
    exact hp.bind fun _ => (detached_parameterTexts ps).bind fun _ => detached_pure _

lemma detached_signatureText (d : MethodDecl) : Detached (signatureText d) :=
  .ite (detached_pure _) ((detached_typeText d.returnType).bind fun _ =>
    (detached_parameterTexts d.params).bind fun _ => detached_pure _)

lemma detached_functionLines (env : Env) (d : MethodDecl) : Detached (functionLines env d) :=
  (detached_signatureText d).bind fun _ =>
    (detached_stmtsLines d.body.stmts _ _).bind fun _ => detached_pure _

lemma detached_functionsLines (env : Env) :
    ∀ ds : List MethodDecl, Detached (functionsLines env ds)
  | [] => detached_pure _
  | d :: ds => (detached_functionLines env d).bind fun _ =>
    (detached_functionsLines env ds).bind fun _ => detached_pure _

lemma detached_globalLines (env : Env) : ∀ ds : List FieldDecl, Detached (globalLines env ds)
  | [] => detached_pure _
  | _ :: ds => (detached_declarationText _ _ _).bind fun _ =>
    (detached_globalLines env ds).bind fun _ => detached_pure _

lemma detached_prototypeLines : ∀ ds : List MethodDecl, Detached (prototypeLines ds)
  | [] => detached_pure _
  | d :: ds => .ite (detached_prototypeLines ds) ((detached_signatureText d).bind fun _ =>
    (detached_prototypeLines ds).bind fun _ => detached_pure _)

end ClassLang.Target
