import ClassLang.Proofs.Grammar.MirroredExpr

set_option autoImplicit false

/-!
# Tokens with more tokens behind them

What is read off some tokens is read off the same tokens with more behind them, as long as these do
not go on with it. The lines of the tokens make no difference, so the mirror relates tokens to
those that spell the same in front of a rest.

## Main definitions

* `ClassLang.Grammar.Alike` — tokens that spell the same.
* `ClassLang.Grammar.Mirror.appending` — the mirror of tokens in front of a rest.

## Main results

* `ClassLang.Grammar.Mirror.Level.indexGroups` — indices in brackets, read on tokens of their own
  and in front of others.
* `ClassLang.Grammar.Mirror.words_appending` — expressions in front of a rest.
-/

namespace ClassLang.Grammar

open ClassLang.Parser

/-! ## Tokens that spell the same -/

/-- The tokens spell the same, one by one. -/
def Alike (ts us : List Token) : Prop :=
  us.map Token.spelling = ts.map Token.spelling

section Alike

variable {t u : Token} {ts us ts' us' : List Token}

lemma alike_cons : Alike (t :: ts) us ↔ ∃ u us', us = u :: us' ∧ u.spelling = t.spelling ∧
    Alike ts us' := by
  constructor
  · intro h
    obtain ⟨u, us, rfl, hu, hus⟩ := List.map_eq_cons_iff.1 (h.trans List.map_cons)
    exact ⟨u, us, rfl, hu, hus⟩
  · rintro ⟨u, us, rfl, hu, hus⟩
    rw [Alike, List.map_cons, List.map_cons, hu, hus]

lemma Alike.append (h : Alike ts us) (h' : Alike ts' us') : Alike (ts ++ ts') (us ++ us') := by
  rw [Alike, List.map_append, List.map_append, h, h']

lemma alike_nil : Alike [] us ↔ us = [] := List.map_eq_nil_iff

lemma spelling_behead_congr (h : u.spelling = t.spelling) : u.behead.spelling = t.behead.spelling := by
  simp only [Token.spelling, Token.behead, Token.lexeme_eq_of_spelling h,
    Token.kind_eq_of_spelling h]

/-- On which line a text is scanned again makes no difference. -/
lemma alike_rescan (line line' : Nat) (cs : List Char) : Alike (rescan line cs) (rescan line' cs) := by
  simp only [Alike, rescan, List.map_map]
  rfl

end Alike

namespace Mirror

variable {M : Mirror} {inner : Parser Expr} {rest : List Token} {t u : Token} {ts us : List Token}

/-! ## Indices -/

/-- **Indices in brackets**, up to the end of the tokens, are mirrored by indices. -/
lemma Level.indexGroups (hp : M.Level inner fun e _ => e) (line : Nat) : ∀ budget ts,
    Ensures (indexGroups inner line budget) ts fun xs ts' => ts' = [] ∧ ∀ us, M.rel ts us →
      (M.strict → tidy xs) → ∃ ys us', Indices us ys us' ∧ same xs ys ∧ M.rel [] us'
  | 0, _ => ensures_throw _
  | budget + 1, ts => by
    have hend : Reads atEnd ts ts[0]?.isNone ts := (reads_peekAt 0 ts).bind (reads_pure _ _)
    refine Ensures.bind (ensures_of_reads hend) ?_
    rintro _ ts ⟨rfl, rfl⟩
    cases ts with
    | nil => exact ensures_pure ⟨rfl, fun us hrel _ => ⟨[], us, .nil us, rfl, hrel⟩⟩
    | cons t ts =>
      refine Ensures.bind (ensures_expectWhere _ _ (t :: ts)) ?_
      rintro opening ts₁ ⟨hts, hopen⟩
      obtain ⟨rfl, rfl⟩ := List.cons.inj hts
      refine Ensures.bind (ensures_hasOperatorAt 0 "]" ts) ?_
      rintro _ ts ⟨rfl, rfl⟩
      split
      next => exact ensures_throw _
      next hfull =>
        have hinner : Ensures inner ts fun x ts₁ => ts ≠ [] ∧ ∀ us, M.rel ts us →
            (ts₁ = [] → M.ends) → (M.strict → tidy x) → ∃ y us₁, same x y ∧ M.rel ts₁ us₁ ∧
              Attains (fun e _ _ => e) us y us₁ := by
          intro c x c' hc hrun
          refine ⟨?_, fun us hrel => hp.thru.run hrel hc hrun⟩
          rintro rfl
          exact hp.fails hc hrun
        refine Ensures.bind hinner ?_
        rintro x ts₁ ⟨hne, hx⟩
        refine Ensures.bind (ensures_expectWhere _ _ ts₁) ?_
        rintro closing ts₂ ⟨rfl, hclose⟩
        refine Ensures.bind (Level.indexGroups hp line budget ts₂) ?_
        rintro xs ts₃ ⟨hnil, hxs⟩
        refine ensures_pure ⟨hnil, fun us hrel htidy => ?_⟩
        obtain ⟨u, us, rfl, hu, hrest⟩ := exists_of_isOperator hrel hopen
        obtain ⟨y, us₁, hxy, hrel₁, hrun⟩ := hx us hrest (by simp) fun hs => (htidy hs).1
        obtain ⟨v, us₂, rfl, hv, hrel₂⟩ := exists_of_isOperator hrel₁ hclose
        obtain ⟨ys, us', hindices, hsame, hlast⟩ := hxs us₂ hrel₂ fun hs => (htidy hs).2
        have hfull' : (us.head?.any fun t => t.isOperator "]") = false := by
          cases ts with
          | nil => exact absurd rfl hne
          | cons t' ts => exact (any_isOperator hrest "]").trans (by simpa using hfull)
        exact ⟨y :: ys, us', .cons hu hv hfull' hrun hindices, same_cons hxy hsame, hlast⟩

end Mirror

/-- Indices that take up all the tokens are read up to their end. -/
lemma Indices.attains {us rest : List Token} {ys : List Expr} (h : Indices us ys rest)
    (hrest : rest = []) (line : Nat) : Attains (fun e _ s => indexGroups e line s) us ys [] := by
  have hend : ∀ us : List Token, Reads atEnd us us[0]?.isNone us :=
    fun us => (reads_peekAt 0 us).bind (reads_pure _ _)
  induction h with
  | nil us =>
    subst hrest
    exact Attains.step (attains_of_reads fun e _ s => (hend []).bind (reads_pure _ _))
  | @cons opening closing us mid rest y ys hopen hclose hfull hy _ ih =>
    obtain ⟨n, hy⟩ := hy
    obtain ⟨k, hys⟩ := ih hrest
    refine Attains.step ⟨n + k, fun m b s hm hb hs => (hend (opening :: us)).bind ?_⟩
    refine (reads_expectOperator hopen us).bind ?_
    have hhas : Reads (hasOperator "]") us false us := hfull ▸ reads_hasOperator "]" us
    refine hhas.bind ((hy m b s (by omega) (by omega) (by omega)).bind ?_)
    refine (reads_expectOperator hclose mid).bind ?_
    exact (hys m b s (by omega) (by omega) (by omega)).bind (reads_pure _ _)

namespace Mirror

variable {M : Mirror} {inner : Parser Expr} {rest : List Token} {t u : Token} {ts us : List Token}

/-! ## The mirror -/

/-- Tokens are related to those that spell the same in front of `rest`. -/
def appending (rest : List Token) : Mirror where
  rel ts us := ∃ front, us = front ++ rest ∧ Alike ts front
  calls := OpensNoCall rest
  ends := Follows 0 rest
  strict := False
  calls_of_ends := Follows.opensNoCall
  opensNoCall := by
    rintro us ⟨front, rfl, hfront⟩ hcalls
    rwa [alike_nil.1 hfront]
  follows := by
    rintro us ⟨front, rfl, hfront⟩ hends
    rwa [alike_nil.1 hfront]
  cons := by
    rintro t ts us ⟨front, rfl, hfront⟩
    obtain ⟨u, front, rfl, hu, hfront⟩ := alike_cons.1 hfront
    refine ⟨u, front ++ rest, rfl, ?_, fun _ => ⟨hu, front, rfl, hfront⟩⟩
    rw [Token.isWord, Token.isWord, Token.kind_eq_of_spelling hu]
  behead := by
    rintro t ts u us op ⟨front, hus, hfront⟩ -
    obtain ⟨v, front, rfl, hv, hts⟩ := alike_cons.1 hfront
    obtain ⟨rfl, rfl⟩ := List.cons.inj hus
    exact ⟨u.behead :: front, rfl, alike_cons.2 ⟨_, _, rfl, spelling_behead_congr hv, hts⟩⟩

lemma appending_rel_cons : (appending rest).rel (t :: ts) us ↔ ∃ u us', us = u :: us' ∧
    u.spelling = t.spelling ∧ (appending rest).rel ts us' := by
  constructor
  · rintro ⟨front, rfl, hfront⟩
    obtain ⟨u, front, rfl, hu, hfront⟩ := alike_cons.1 hfront
    exact ⟨u, front ++ rest, rfl, hu, front, rfl, hfront⟩
  · rintro ⟨u, us, rfl, hu, front, rfl, hfront⟩
    exact ⟨u :: front, rfl, alike_cons.2 ⟨u, front, rfl, hu, hfront⟩⟩

/-- Off tokens that spell the same, in front of the rest, the scheme reads the same. -/
def Repeats {α : Type} (rest ts : List Token) (q : Scheme α) (x : α) (ts' : List Token) : Prop :=
  ∀ us, (appending rest).rel ts us → ∃ us', (appending rest).rel ts' us' ∧ Attains q us x us'

/-! ## Words with brackets in them -/

/-- What is gathered in front of more tokens is the same. -/
lemma appending_gather (rest : List Token) : ∀ (budget : Nat) (text : List Char) (ts : List Token),
    Ensures (gather text budget) ts (Repeats rest ts fun _ _ s => gather text s)
  | 0, _, _ => ensures_throw _
  | budget + 1, text, ts => by
    rw [gather]
    split
    next hopen =>
      refine Ensures.bind (ensures_anyToken ts) ?_
      rintro t ts₁ rfl
      refine (appending_gather rest budget _ ts₁).mono fun text' ts' h us hrel => ?_
      obtain ⟨u, us, rfl, hu, hrest⟩ := appending_rel_cons.1 hrel
      obtain ⟨us', hrel', hrun⟩ := h us hrest
      refine ⟨us', hrel', Attains.step ?_⟩
      obtain ⟨n, hrun⟩ := hrun
      refine ⟨n, fun m b s hm hb hs => ?_⟩
      have hmore := hrun m b s hm hb hs
      rw [← Token.lexeme_eq_of_spelling hu] at hmore
      simp only [gather, hopen, if_true]
      exact (reads_anyToken u us).bind hmore
    next hopen =>
      refine ensures_pure fun us hrel => ⟨us, hrel, Attains.step (attains_of_reads fun _ _ s => ?_)⟩
      simp only [gather, hopen, if_false]
      exact reads_pure _ _

lemma reads_pushAllFront (vs us : List Token) : Reads (pushAllFront vs) us () (vs ++ us) := by
  rintro c rfl
  refine ⟨_, rfl, ?_⟩
  induction vs with
  | nil => rfl
  | cons v vs ih => exact congrArg (v :: ·) ih

lemma reads_apart {α : Type} {p : Parser α} {vs rest : List Token} {x : α} (h : Reads p vs x rest)
    (us : List Token) : Reads (apart vs p) us x us := by
  obtain ⟨c, hrun, -⟩ := h (.ofTokens vs) rfl
  rw [apart, onTokens, hrun]
  exact reads_pure x us

/-- Indices that are read on tokens of their own are indices in front of any tokens. -/
lemma Level.apart_indexGroups (hp : (appending rest).Level inner fun e _ => e) (line budget : Nat)
    (vs ts : List Token) :
    Ensures (apart vs (Grammar.indexGroups inner line budget)) ts fun xs ts' => ts' = ts ∧
      ∀ us, Alike vs us → ∃ ys, same xs ys ∧ Indices (us ++ rest) ys rest := by
  rw [apart, onTokens]
  rcases hrun : (Grammar.indexGroups inner line budget).runFrom (.ofTokens vs) with ⟨r, c⟩
  cases r with
  | error e => exact ensures_throw e
  | ok xs =>
    refine ensures_pure ⟨rfl, fun us hus => ?_⟩
    obtain ⟨-, hindices⟩ := hp.indexGroups line budget _ rfl hrun
    obtain ⟨ys, us', hys, hsame, front, rfl, hfront⟩ := hindices (us ++ rest) ⟨us, rfl, hus⟩ False.elim
    rw [alike_nil.1 hfront] at hys
    exact ⟨ys, hsame, hys⟩

/-- **A word with brackets** is taken apart in the same way in front of more tokens. -/
lemma appending_glued (hp : (appending []).Level inner fun e _ => e) (rest : List Token)
    (budget : Nat) (t : Token) (ts : List Token) :
    Ensures (glued inner budget t) ts fun r ts' => ∀ u us, u.spelling = t.spelling →
      (appending rest).rel ts us → ∃ indices us', same r.2 indices ∧ (appending rest).rel ts' us' ∧
        Attains (fun e b _ => glued e b u) us (r.1, indices) us' := by
  rw [glued]
  split
  next hpairs =>
    refine ensures_pure fun u us hu hrel => ⟨[], us, rfl, hrel, attains_of_reads fun e b _ => ?_⟩
    rw [glued, Token.lexeme_eq_of_spelling hu, if_pos hpairs]
    exact reads_pure _ _
  next hpairs =>
    refine Ensures.bind (appending_gather rest budget _ ts) ?_
    intro text ts₁ hgather
    refine Ensures.bind (ensures_pushAllFront _ ts₁) ?_
    rintro _ _ rfl
    refine Ensures.bind (hp.apart_indexGroups t.line budget _ _) ?_
    rintro xs _ ⟨rfl, hxs⟩
    refine ensures_pure fun u us hu hrel => ?_
    obtain ⟨us₁, ⟨front, rfl, hfront⟩, n, hgather'⟩ := hgather us hrel
    obtain ⟨ys, hsame, hys⟩ := hxs _ (alike_rescan t.line u.line _)
    rw [List.append_nil] at hys
    obtain ⟨k, hindices⟩ := hys.attains rfl u.line
    refine ⟨ys, rescan u.line (Brackets.split text).2 ++ (front ++ rest), hsame,
      ⟨_, (List.append_assoc _ _ _).symm, (alike_rescan _ _ _).append hfront⟩, n + k, ?_⟩
    intro m b s hm hb hs
    simp only [glued, Token.lexeme_eq_of_spelling hu]
    rw [if_neg hpairs]
    refine (hgather' m b b (by omega) (by omega) (by omega)).bind ?_
    refine (reads_pushAllFront _ _).bind ?_
    refine (reads_apart (hindices m b b (by omega) (by omega) (by omega)) _).bind ?_
    exact reads_pure _ _

/-! ## Types -/

/-- A comma follows, or a sign that closes a list of type arguments. -/
def EndsType (ts : List Token) : Prop :=
  ∃ t more, ts = t :: more ∧ (t.isOperator "," = true ∨ closesAngle t = true)

lemma closesAngle_congr (h : u.spelling = t.spelling) : closesAngle u = closesAngle t := by
  simp only [closesAngle, Token.isOperator_congr h]

lemma EndsType.isOperator_eq_false (h : EndsType (t :: ts)) {op : String}
    (hop : op ∈ ["[", "<"]) : t.isOperator op = false := by
  obtain ⟨t, more, hts, hends⟩ := h
  obtain ⟨rfl, -⟩ := List.cons.inj hts
  have hlexeme : t.lexeme ∈ [",", ">", ">>", ">>>"] := by
    simp only [closesAngle, Token.isOperator, Bool.or_eq_true, Bool.and_eq_true,
      decide_eq_true_eq] at hends
    rcases hends with h | (h | h) | h <;> simp [h.2]
  have hne : t.lexeme ≠ op := by
    have hapart : ∀ x ∈ [",", ">", ">>", ">>>"], ∀ op ∈ ["[", "<"], x ≠ op := by decide
    exact hapart _ hlexeme _ hop
  simp [Token.isOperator, hne]

lemma reads_expectWhere {good : Token → Bool} (hu : good u = true) (expected : String)
    (us : List Token) : Reads (expectWhere good expected) (u :: us) u us := by
  refine (reads_peek_cons u us).bind ?_
  simp only [Option.any_some, hu, if_true]
  exact reads_anyToken u us

/-- A list of type arguments is closed in the same way. -/
lemma appending_closeAngle (rest ts : List Token) :
    Ensures closeAngle ts fun _ ts' => EndsType ts ∧ ∀ us, (appending rest).rel ts us →
      ∃ us', (appending rest).rel ts' us' ∧ Reads closeAngle us () us' := by
  refine Ensures.bind (ensures_expectWhere _ _ ts) ?_
  rintro t ts₁ ⟨rfl, ht⟩
  have hends : EndsType (t :: ts₁) := ⟨t, ts₁, rfl, .inr ht⟩
  have hclose : ∀ u us, u.spelling = t.spelling →
      Reads (expectWhere closesAngle "'>'") (u :: us) u us :=
    fun u us hu => reads_expectWhere ((closesAngle_congr hu).trans ht) _ us
  split
  next hlong =>
    intro c x c' hc hrun
    obtain ⟨-, rfl⟩ := Prod.mk.inj hrun
    refine ⟨hends, fun us hrel => ?_⟩
    obtain ⟨u, us, rfl, hu, hrest⟩ := appending_rel_cons.1 hrel
    refine ⟨u.behead :: us, appending_rel_cons.2 ⟨_, _, ?_, spelling_behead_congr hu, hc ▸ hrest⟩,
      (hclose u us hu).bind ?_⟩
    · rfl
    · rw [if_pos (by rw [Token.lexeme_eq_of_spelling hu]; exact hlong)]
      rintro c rfl
      exact ⟨_, rfl, rfl⟩
  next hlong =>
    refine ensures_pure ⟨hends, fun us hrel => ?_⟩
    obtain ⟨u, us, rfl, hu, hrest⟩ := appending_rel_cons.1 hrel
    refine ⟨us, hrest, (hclose u us hu).bind ?_⟩
    rw [Token.lexeme_eq_of_spelling hu, if_neg hlong]
    exact reads_pure _ _

/-- The parser `p` fails at the end of the tokens. Where a type ends, it is mirrored by `q`. -/
structure Types (rest : List Token) (p : Parser TypeExpr) (q : Nat → Parser TypeExpr) : Prop where
  fails : Ensures p [] fun _ _ => False
  run : ∀ ts, Ensures p ts fun x ts' => EndsType ts' → ∀ us, (appending rest).rel ts us →
    ∃ us', (appending rest).rel ts' us' ∧ Attains (fun _ b _ => q b) us x us'

/-- The types of a list of type arguments. -/
lemma Types.typeList {p : Parser TypeExpr} {q : Nat → Parser TypeExpr} (hp : Types rest p q) :
    ∀ n ts, Ensures (typeList p n) ts (Repeats rest ts fun _ b s => typeList (q b) s)
  | 0, _ => ensures_throw _
  | n + 1, ts => by
    refine Ensures.bind (hp.run ts) ?_
    intro x ts₁ hx
    refine Ensures.bind (ensures_acceptOperator "," ts₁) ?_
    rintro _ ts₂ (⟨rfl, t, ht, rfl⟩ | ⟨rfl, rfl, hno⟩)
    · refine Ensures.bind (Types.typeList hp n ts₂) ?_
      intro xs ts₃ hxs
      refine ensures_pure fun us hrel => ?_
      obtain ⟨us₁, hrel₁, k, hfirst⟩ := hx ⟨t, ts₂, rfl, .inl ht⟩ us hrel
      obtain ⟨u, us₂, rfl, hu, hrel₂⟩ := exists_of_isOperator hrel₁ ht
      obtain ⟨us', hrel', l, hothers⟩ := hxs us₂ hrel₂
      refine ⟨us', hrel', Attains.step ⟨k + l, fun m b s hm hb hs => ?_⟩⟩
      refine (hfirst m b s (by omega) (by omega) (by omega)).bind ?_
      refine (reads_acceptOperator_true hu us₂).bind ?_
      exact (hothers m b s (by omega) (by omega) (by omega)).bind (reads_pure _ _)
    · refine Ensures.bind (appending_closeAngle rest ts₂) ?_
      rintro _ ts₃ ⟨hends, hclose⟩
      refine ensures_pure fun us hrel => ?_
      obtain ⟨us₁, hrel₁, k, hfirst⟩ := hx hends us hrel
      obtain ⟨us', hrel', hclose'⟩ := hclose us₁ hrel₁
      refine ⟨us', hrel', Attains.step ⟨k, fun m b s hm hb hs => ?_⟩⟩
      refine (hfirst m b s hm hb hs).bind ?_
      have hno' : (us₁.head?.any fun t => t.isOperator ",") = false := by
        obtain ⟨t, more, rfl, -⟩ := hends
        exact (any_isOperator hrel₁ ",").trans hno
      exact (reads_acceptOperator_false hno').bind (hclose'.bind (reads_pure _ _))

/-- A list of type arguments. -/
lemma Types.typeArgumentsOf {p : Parser TypeExpr} {q : Nat → Parser TypeExpr}
    (hp : Types rest p q) (budget : Nat) (ts : List Token) :
    Ensures (typeArgumentsOf p budget) ts
      (Repeats rest ts fun _ b _ => typeArgumentsOf (q b) b) := by
  refine Ensures.bind (ensures_expectWhere _ _ ts) ?_
  rintro opening ts₁ ⟨rfl, hopen⟩
  refine Ensures.bind (ensures_acceptOperator ">" ts₁) ?_
  rintro _ ts₂ (⟨rfl, t, ht, rfl⟩ | ⟨rfl, rfl, hno⟩)
  · refine ensures_pure fun us hrel => ?_
    obtain ⟨u, us, rfl, hu, hrel₁⟩ := exists_of_isOperator hrel hopen
    obtain ⟨v, us, rfl, hv, hrel₂⟩ := exists_of_isOperator hrel₁ ht
    refine ⟨us, hrel₂, attains_of_reads fun _ b _ => (reads_expectOperator hu _).bind ?_⟩
    exact (reads_acceptOperator_true hv us).bind (reads_pure _ _)
  · have hfails : Ensures (Grammar.typeList p budget) [] fun _ _ => False := by
      cases budget with
      | zero => exact ensures_throw _
      | succ n => exact fails_bind hp.fails
    have hlist : Ensures (Grammar.typeList p budget) ts₂ fun xs ts' => ts₂ ≠ [] ∧
        Repeats rest ts₂ (fun _ b s => Grammar.typeList (q b) s) xs ts' := by
      intro c x c' hc hrun
      refine ⟨?_, hp.typeList budget ts₂ hc hrun⟩
      rintro rfl
      exact hfails hc hrun
    refine Ensures.bind hlist ?_
    rintro xs ts₃ ⟨hne, hxs⟩
    refine ensures_pure fun us hrel => ?_
    obtain ⟨u, us, rfl, hu, hrel₁⟩ := exists_of_isOperator hrel hopen
    obtain ⟨us', hrel', n, hrun⟩ := hxs us hrel₁
    have hno' : (us.head?.any fun t => t.isOperator ">") = false := by
      cases ts₂ with
      | nil => exact absurd rfl hne
      | cons t ts₂ => exact (any_isOperator hrel₁ ">").trans hno
    refine ⟨us', hrel', n, fun m b s hm hb hs => (reads_expectOperator hu us).bind ?_⟩
    refine (reads_acceptOperator_false hno').bind ?_
    exact (hrun m b b hm hb hb).bind (reads_pure _ _)

/-- Pairs of brackets behind a type. -/
lemma appending_bracketPairs (rest : List Token) : ∀ n ts,
    Ensures (bracketPairs n) ts fun k ts' =>
      EndsType ts' → Repeats rest ts (fun _ _ s => bracketPairs s) k ts'
  | 0, _ => ensures_throw _
  | n + 1, ts => by
    refine Ensures.bind (ensures_hasOperatorAt 0 "[" ts) ?_
    rintro _ ts ⟨rfl, rfl⟩
    cases ts with
    | nil =>
      refine ensures_pure fun hends => ?_
      obtain ⟨t, more, hcons, -⟩ := hends
      cases hcons
    | cons t ts =>
      simp only [List.getElem?_cons_zero, Option.any_some]
      split
      next hopen =>
        refine Ensures.bind (ensures_hasOperatorAt 1 "]" (t :: ts)) ?_
        rintro _ _ ⟨rfl, rfl⟩
        split
        next hclose =>
          cases ts with
          | nil => simp at hclose
          | cons t₁ ts =>
            have ht₁ : t₁.isOperator "]" = true := by simpa using hclose
            refine Ensures.bind (ensures_of_reads (reads_next t (t₁ :: ts))) ?_
            rintro _ _ ⟨rfl, rfl⟩
            refine Ensures.bind (ensures_of_reads (reads_next t₁ ts)) ?_
            rintro _ ts ⟨rfl, rfl⟩
            refine Ensures.bind (appending_bracketPairs rest n ts) ?_
            intro k ts' hk
            refine ensures_pure fun hends us hrel => ?_
            obtain ⟨u, us, rfl, hu, hrel₁⟩ := exists_of_isOperator hrel hopen
            obtain ⟨v, us, rfl, hv, hrel₂⟩ := exists_of_isOperator hrel₁ ht₁
            obtain ⟨us', hrel', l, hrun⟩ := hk hends us hrel₂
            refine ⟨us', hrel', Attains.step ⟨l, fun m b s hm hb hs => ?_⟩⟩
            have hopen' : Reads (hasOperator "[") (u :: v :: us) true (u :: v :: us) := by
              simpa [hu] using reads_hasOperator "[" (u :: v :: us)
            have hclose' : Reads (hasOperatorAt 1 "]") (u :: v :: us) true (u :: v :: us) := by
              simpa [hv] using reads_hasOperatorAt 1 "]" (u :: v :: us)
            refine hopen'.bind (hclose'.bind ?_)
            refine (reads_next u (v :: us)).bind ((reads_next v us).bind ?_)
            exact (hrun m b s hm hb hs).bind (reads_pure _ _)
        next =>
          refine ensures_pure fun hends => ?_
          rw [hends.isOperator_eq_false (by decide)] at hopen
          cases hopen
      next hopen =>
        refine ensures_pure fun hends us hrel => ⟨us, hrel, Attains.step ?_⟩
        refine attains_of_reads fun _ _ s => ?_
        have hno : (us.head?.any fun t => t.isOperator "[") = false :=
          (any_isOperator hrel "[").trans (by simpa using hopen)
        have hhas : Reads (hasOperator "[") us false us := hno ▸ reads_hasOperator "[" us
        exact hhas.bind (reads_pure _ _)

lemma startsType_congr (h : u.spelling = t.spelling) : startsType u = startsType t := by
  simp only [startsType, Token.kind_eq_of_spelling h, Token.lexeme_eq_of_spelling h]

/-- The type arguments behind the name of a type. There are none behind a word with an array
suffix. -/
def argumentsBehind (arguments : Parser (List TypeExpr × Bool)) (plain : Bool) :
    Parser (List TypeExpr) := do
  let opens ← hasOperator "<"
  if plain && opens then (·.1) <$> arguments else pure []

lemma typeExprOf_eq (arguments : Parser (List TypeExpr × Bool)) (budget : Nat) :
    typeExprOf arguments budget = expectWhere startsType "type name" >>= fun t =>
      argumentsBehind arguments (decide ((Word.splitArray t.lexeme).2 = 0)) >>= fun args =>
        bracketPairs budget >>= fun pairs =>
          pure (.mk (Word.splitArray t.lexeme).1 args ((Word.splitArray t.lexeme).2 + pairs)) := by
  rw [typeExprOf]
  refine congrArg _ (funext fun t => ?_)
  rw [argumentsBehind, bind_assoc]
  rcases Word.splitArray t.lexeme with ⟨name, suffixes⟩
  dsimp only
  refine congrArg _ (funext fun opens => ?_)
  split <;> rfl

/-- What is read after a look at the next token. -/
lemma appending_hasOperator {α : Type} {op : String} {f : Bool → Parser α} {g : Bool → Scheme α}
    {ts : List Token} (h : Ensures (f (t.isOperator op)) (t :: ts)
      (Repeats rest (t :: ts) (g (t.isOperator op)))) :
    Ensures (hasOperator op >>= f) (t :: ts)
      (Repeats rest (t :: ts) fun e b s => hasOperator op >>= (g · e b s)) := by
  refine Ensures.bind (ensures_hasOperatorAt 0 op (t :: ts)) ?_
  rintro _ _ ⟨rfl, rfl⟩
  refine Ensures.mono h fun x ts' hx us hrel => ?_
  obtain ⟨us', hrel', hattains⟩ := hx us hrel
  have hnext : Reads (hasOperator op) us (t.isOperator op) us :=
    any_isOperator hrel op ▸ reads_hasOperator op us
  exact ⟨us', hrel', (attains_of_reads fun _ _ _ => hnext).bind hattains⟩

lemma Types.argumentsBehind {p : Parser TypeExpr} {q : Nat → Parser TypeExpr} (hp : Types rest p q)
    (budget : Nat) (plain : Bool) (ts : List Token) :
    Ensures (argumentsBehind (Grammar.typeArgumentsOf p budget) plain) ts fun args ts' =>
      (ts = [] → ts' = []) ∧ (ts ≠ [] → Repeats rest ts
        (fun _ b _ => argumentsBehind (Grammar.typeArgumentsOf (q b) b) plain) args ts') := by
  cases ts with
  | nil =>
    refine Ensures.bind (ensures_hasOperatorAt 0 "<" []) ?_
    rintro _ _ ⟨rfl, rfl⟩
    simp only [List.getElem?_nil, Option.any_none, Bool.and_false, Bool.false_eq_true, if_false]
    exact ensures_pure ⟨fun _ => rfl, fun hne => absurd rfl hne⟩
  | cons t ts =>
    refine Ensures.mono (appending_hasOperator (g := fun opens _ b _ =>
      if plain && opens then (·.1) <$> Grammar.typeArgumentsOf (q b) b else pure []) ?_)
      fun x ts' hx => ⟨fun hnil => absurd hnil (List.cons_ne_nil _ _), fun _ => hx⟩
    cases plain && t.isOperator "<" with
    | true =>
      simp only [if_true, map_eq_pure_bind]
      refine Ensures.bind (hp.typeArgumentsOf budget (t :: ts)) ?_
      intro x ts' hx
      refine ensures_pure fun us hrel => ?_
      obtain ⟨us', hrel', hattains⟩ := hx us hrel
      exact ⟨us', hrel', hattains.bind (attains_pure _ _)⟩
    | false => exact ensures_pure fun us hrel => ⟨us, hrel, attains_pure _ _⟩

/-- **Types**, in front of a comma or of the end of a list of type arguments. -/
lemma types_typeExprWithin (rest : List Token) : ∀ budget,
    Types rest (typeExprWithin budget) typeExprWithin
  | 0 => ⟨ensures_throw _, fun _ => ensures_throw _⟩
  | budget + 1 => by
    have hfails : Ensures (typeExprWithin (budget + 1)) [] fun _ _ => False := by
      refine Ensures.bind (ensures_expectWhere _ _ []) ?_
      rintro t ts ⟨hcons, -⟩
      cases hcons
    refine ⟨hfails, fun ts => ?_⟩
    rw [typeExprWithin, typeExprOf_eq]
    refine Ensures.bind (ensures_expectWhere _ _ ts) ?_
    rintro t ts₁ ⟨rfl, ht⟩
    refine Ensures.bind ((types_typeExprWithin rest budget).argumentsBehind budget _ ts₁) ?_
    rintro args ts₂ ⟨hnil, hargs⟩
    have hpairs : Ensures (bracketPairs (budget + 1)) ts₂ fun k ts' => (ts₂ = [] → ts' = []) ∧
        (EndsType ts' → Repeats rest ts₂ (fun _ _ s => bracketPairs s) k ts') := by
      intro c k c' hc hrun
      refine ⟨?_, appending_bracketPairs rest (budget + 1) ts₂ hc hrun⟩
      rintro rfl
      have hnone : Reads (bracketPairs (budget + 1)) [] 0 [] :=
        (reads_hasOperator "[" []).bind (reads_pure _ _)
      exact (ensures_of_reads hnone hc hrun).2
    refine Ensures.bind hpairs ?_
    rintro pairs ts₃ ⟨hnil', hpairs⟩
    refine ensures_pure fun hends us hrel => ?_
    have hne : ts₁ ≠ [] := by
      rintro rfl
      obtain ⟨t, more, hcons, -⟩ := hends
      rw [hnil' (hnil rfl)] at hcons
      cases hcons
    obtain ⟨u, us, rfl, hu, hrel₁⟩ := appending_rel_cons.1 hrel
    obtain ⟨us₁, hrel₂, n, hargs'⟩ := hargs hne us hrel₁
    obtain ⟨us', hrel', k, hpairs'⟩ := hpairs hends us₁ hrel₂
    refine ⟨us', hrel', attains_of_budget ⟨n + k, fun m b s hm hb hs => ?_⟩⟩
    simp only [typeExprWithin, typeExprOf_eq]
    refine (reads_expectWhere ((startsType_congr hu).trans ht) _ us).bind ?_
    rw [Token.lexeme_eq_of_spelling hu]
    refine (hargs' m b s (by omega) (by omega) (by omega)).bind ?_
    exact (hpairs' m b (b + 1) (by omega) (by omega) (by omega)).bind (reads_pure _ _)

lemma appending_typeArgumentsWithin (rest : List Token) (budget : Nat) (ts : List Token) :
    Ensures (typeArgumentsWithin budget) ts (Repeats rest ts fun _ b _ => typeArgumentsWithin b) :=
  (types_typeExprWithin rest budget).typeArgumentsOf budget ts

/-! ## New arrays and objects -/

section New

variable (hp : (appending rest).Level inner fun e _ => e)
include hp

omit hp in
lemma appending_newArguments (rest : List Token) (budget : Nat) (ts : List Token) (hne : ts ≠ []) :
    Ensures (newArguments budget) ts (Repeats rest ts fun _ b _ => newArguments b) := by
  cases ts with
  | nil => exact absurd rfl hne
  | cons t ts =>
    refine appending_hasOperator (g := fun opens _ b _ =>
      if opens then typeArgumentsWithin b else pure ([], false)) ?_
    cases t.isOperator "<" with
    | true => exact appending_typeArgumentsWithin rest budget (t :: ts)
    | false => exact ensures_pure fun us hrel => ⟨us, hrel, attains_pure _ _⟩

omit hp in
lemma fails_newBehind (budget line : Nat) (name : String) :
    Ensures (newBehind inner budget line name) [] fun _ _ => False := by
  refine Ensures.bind (Q := fun _ ts' => ts' = []) ?_ ?_
  · refine Ensures.bind (ensures_hasOperatorAt 0 "<" []) ?_
    rintro _ _ ⟨rfl, rfl⟩
    exact ensures_pure rfl
  · rintro parts _ rfl
    refine Ensures.bind (ensures_hasOperatorAt 0 "[" []) ?_
    rintro _ _ ⟨rfl, rfl⟩
    exact fails_bind (fails_expectOperator_bind "(")

lemma Level.newBehind (budget line line' : Nat) (name : String) (ts : List Token) :
    Ensures (newBehind inner budget line name) ts fun x ts' => ∀ us, (appending rest).rel ts us →
      ∃ y us', same x y ∧ (appending rest).rel ts' us' ∧
        Attains (fun e b _ => newBehind e b line' name) us y us' := by
  by_cases hne : ts = []
  · subst hne
    exact (fails_newBehind budget line name).mono fun _ _ hfalse => hfalse.elim
  refine Ensures.bind (appending_newArguments rest budget ts hne) ?_
  intro parts ts₁ hparts
  refine Ensures.bind (ensures_hasOperatorAt 0 "[" ts₁) ?_
  rintro _ ts₁ ⟨rfl, rfl⟩
  split
  next hopen =>
    refine Ensures.bind (ensures_expectWhere _ _ ts₁) ?_
    rintro opening ts₂ ⟨rfl, hopening⟩
    have hinner : Ensures inner ts₂ fun x ts₃ => ∀ us, (appending rest).rel ts₂ us →
        (ts₃ = [] → (appending rest).ends) → ∃ y us₃, same x y ∧ (appending rest).rel ts₃ us₃ ∧
          Attains (fun e _ _ => e) us y us₃ :=
      fun _ _ _ hc hrun us hrel hend => hp.thru.run hrel hc hrun hend False.elim
    refine Ensures.bind hinner ?_
    intro size ts₃ hsize
    refine Ensures.bind (ensures_expectWhere _ _ ts₃) ?_
    rintro closing ts₄ ⟨rfl, hclosing⟩
    refine ensures_pure fun us hrel => ?_
    obtain ⟨us₁, hrel₁, n, hparts'⟩ := hparts us hrel
    obtain ⟨u, us₂, rfl, hu, hrel₂⟩ := exists_of_isOperator hrel₁ hopening
    obtain ⟨size', us₃, hsame, hrel₃, k, hsize'⟩ := hsize us₂ hrel₂ (by simp)
    obtain ⟨v, us₄, rfl, hv, hrel₄⟩ := exists_of_isOperator hrel₃ hclosing
    refine ⟨.newArray line' ((TypeExpr.mk name parts.1 0).arrayOf 1) size' parts.2, us₄, ?_, hrel₄,
      n + k, fun m b s hm hb hs => ?_⟩
    · exact same_newArray hsame _ _
    · refine (hparts' m b s (by omega) (by omega) (by omega)).bind ?_
      have hhas : Reads (hasOperator "[") (u :: us₂) true (u :: us₂) := by
        simpa [hu] using reads_hasOperator "[" (u :: us₂)
      refine hhas.bind ((reads_expectOperator hu us₂).bind ?_)
      refine (hsize' m b s (by omega) (by omega) (by omega)).bind ?_
      exact (reads_expectOperator hv us₄).bind (reads_pure _ _)
  next hopen =>
    have hargs : Ensures (Grammar.arguments inner budget) ts₁ fun args ts' => ts₁ ≠ [] ∧
        ∀ us, (appending rest).rel ts₁ us → ∃ args' us', same args args' ∧
          (appending rest).rel ts' us' ∧
            Attains (fun e b _ => Grammar.arguments e b) us args' us' := by
      intro c args c' hc hrun
      refine ⟨?_, fun us hrel => (hp.arguments budget (K := True)).run hrel hc hrun
        (fun _ => trivial) False.elim⟩
      rintro rfl
      exact fails_expectOperator_bind "(" hc hrun
    refine Ensures.bind hargs ?_
    rintro args ts₂ ⟨hne₁, hargs⟩
    split
    next hempty =>
      refine ensures_pure fun us hrel => ?_
      obtain ⟨us₁, hrel₁, n, hparts'⟩ := hparts us hrel
      obtain ⟨args', us', hsame, hrel', k, hargs'⟩ := hargs us₁ hrel₁
      refine ⟨.newObject line' (.mk name parts.1 0) parts.2, us', rfl, hrel', n + k,
        fun m b s hm hb hs => ?_⟩
      refine (hparts' m b s (by omega) (by omega) (by omega)).bind ?_
      have hno : (us₁.head?.any fun t => t.isOperator "[") = false := by
        cases ts₁ with
        | nil => exact absurd rfl hne₁
        | cons t ts₁ => exact (any_isOperator hrel₁ "[").trans (by simpa using hopen)
      have hhas : Reads (hasOperator "[") us₁ false us₁ := hno ▸ reads_hasOperator "[" us₁
      refine hhas.bind ((hargs' m b s (by omega) (by omega) (by omega)).bind ?_)
      have hempty' : args'.isEmpty = true := by
        cases args' with
        | nil => rfl
        | cons e es =>
          cases args with
          | nil => cases hsame
          | cons e es => simp at hempty
      rw [if_pos hempty']
      exact reads_pure _ _
    next => exact ensures_throw _

/-- **A new array or object** in front of more tokens. -/
lemma Level.newExpr (hnil : (appending []).Level inner fun e _ => e) (budget : Nat)
    ⦃ts us : List Token⦄ (hrel : (appending rest).rel ts us) :
    (appending rest).At True (newExpr inner budget) (fun e b _ => newExpr e b) ts us := by
  simp only [newExpr_eq]
  refine Ensures.bind (ensures_expectWhere _ _ ts) ?_
  rintro keyword ts₁ ⟨rfl, hkeyword⟩
  refine Ensures.bind (ensures_expectWhere _ _ ts₁) ?_
  rintro t ts₂ ⟨rfl, hword⟩
  refine Ensures.bind (appending_glued hnil rest budget t ts₂) ?_
  rintro ⟨word, sizes⟩ ts₃ hglued
  obtain ⟨u, us, rfl, hu, hrel₁⟩ := appending_rel_cons.1 hrel
  obtain ⟨v, us, rfl, hv, hrel₂⟩ := appending_rel_cons.1 hrel₁
  obtain ⟨sizes', us₁, hsame, hrel₃, n, hglued'⟩ := hglued v us hv hrel₂
  -- Both sides have come to the same word and to as many sizes.
  have hfront : ∀ {y : Expr} {us' : List Token},
      Attains (fun e b _ => newWord e b u.line (word, sizes')) us₁ y us' →
        Attains (fun e b _ => expectKeyword "new" >>= fun keyword =>
          expectWhere Token.isWord "type after 'new'" >>= fun t =>
            glued e b t >>= newWord e b keyword.line) (u :: v :: us) y us' := by
    rintro y us' ⟨k, hrun⟩
    refine ⟨n + k, fun m b s hm hb hs => ?_⟩
    have hu' : u.isKeyword "new" = true := by
      rw [Token.isKeyword, Token.kind_eq_of_spelling hu, Token.lexeme_eq_of_spelling hu]
      exact hkeyword
    have hv' : v.isWord = true := by
      rw [Token.isWord, Token.kind_eq_of_spelling hv]
      exact hword
    refine (reads_expectWhere hu' _ _).bind ((reads_expectWhere hv' _ _).bind ?_)
    refine (hglued' m b s (by omega) (by omega) (by omega)).bind ?_
    exact hrun m b s (by omega) (by omega) (by omega)
  cases sizes with
  | nil =>
    obtain rfl : sizes' = [] := by
      cases sizes' with
      | nil => rfl
      | cons e es => cases hsame
    dsimp only [newWord] at hfront ⊢
    split
    next hdims =>
      refine Ensures.mono (hp.arrayInitOf budget hrel₃) fun x ts' hx hend htidy => ?_
      obtain ⟨y, us', hxy, hrel', hrun⟩ := hx hend htidy
      simp only [if_pos hdims] at hfront
      exact ⟨y, us', hxy, hrel', hfront hrun⟩
    next hdims =>
      refine (hp.newBehind budget keyword.line u.line _ ts₃).mono fun x ts' hx _ _ => ?_
      obtain ⟨y, us', hxy, hrel', hrun⟩ := hx us₁ hrel₃
      simp only [if_neg hdims] at hfront
      exact ⟨y, us', hxy, hrel', hfront hrun⟩
  | cons size sizes =>
    cases sizes with
    | cons => exact ensures_throw _
    | nil =>
      obtain ⟨size', rfl, hsize⟩ : ∃ size', sizes' = [size'] ∧ size.unlined = size'.unlined := by
        cases sizes' with
        | nil => cases hsame
        | cons e es =>
          obtain ⟨hhead, htail⟩ := List.cons.inj hsame
          cases es with
          | nil => exact ⟨e, rfl, hhead⟩
          | cons => cases htail
      refine ensures_pure fun _ _ => ⟨.newArray u.line ((TypeExpr.ofWord word).arrayOf 1) size' false,
        us₁, ?_, hrel₃, hfront (attains_pure _ us₁)⟩
      exact same_newArray hsize _ _

end New

/-! ## Expressions -/

/-- **Expressions in front of more tokens.** -/
theorem words_appending (budget : Nat) (rest : List Token) :
    (appending rest).Words (exprWithin budget) := by
  refine words_exprWithin appending (fun budget hlevel rest => ?_) budget rest
  refine { hlevel rest with
    unglues := fun budget t ts us hrel hword => ?_
    news := (hlevel rest).newExpr (hlevel []) }
  obtain ⟨u, us, rfl, hu, hrest⟩ := appending_rel_cons.1 hrel
  refine (appending_glued (hlevel []) rest budget t ts).mono fun r ts' hr _ => ?_
  obtain ⟨indices, us', hsame, hrel', hrun⟩ := hr u us hu hrest
  exact .whole rfl (Token.kind_eq_of_spelling hu) hrun hsame hrel'

end Mirror

end ClassLang.Grammar
