import ClassLang.Cursor.Buffered
import Mathlib.Data.List.Basic

set_option autoImplicit false

/-!
# Buffered reading shows a plain list

A feed is read through a window that fetches tokens late and drops consumed ones now and then. What
a reader sees of it is a plain list: the tokens ahead in the window, and behind them those of the
feed. Fetching moves tokens from the feed to the end of the window, a clean-up drops consumed tokens
only, and a token that is put back comes to stand before the tokens ahead. None of this shows, and
the sizes of the window, which decide when a clean-up is due, may be anything.

## Main definitions

* `ClassLang.Buffered.Op` — the operations of a reader.
* `ClassLang.Reading` — a plain list that is read from the front, with the number of tokens read.
* `ClassLang.Buffered.Shows` — a buffered feed shows a reading.

## Main results

* `ClassLang.Window.ahead_cleanUp` — a clean-up keeps the tokens ahead.
* `ClassLang.Buffered.Shows.perform` — an operation gives the same on both, which then still agree.
* `ClassLang.Buffered.answers_eq_list` — so does every sequence of operations, whatever the sizes.
-/

namespace ClassLang

/-! ## Windows -/

namespace Window

variable {w : Window}

/-- The place at which tokens are consumed and put back lies in the window or at its end. -/
def InRange (w : Window) : Prop :=
  w.position ≤ w.tokens.length

lemma inRange_ofSizes (maxSize minSize : Nat) : (ofSizes maxSize minSize).InRange :=
  Nat.le_refl 0

lemma peekAt_eq_getElem?_ahead (w : Window) (n : Nat) : w.peekAt n = w.ahead[n]? := by
  rw [peekAt, ahead, List.getElem?_drop]

lemma available_eq_length_ahead (w : Window) : w.available = w.ahead.length := by
  rw [available, ahead, List.length_drop]

lemma inRange_push (h : w.InRange) (t : Token) : (w.push t).InRange := by
  show w.position ≤ (w.tokens ++ [t]).length
  have hle : w.position ≤ w.tokens.length := h
  simp only [List.length_append, List.length_singleton]
  omega

/-- A token that is fetched comes last. -/
lemma ahead_push (h : w.InRange) (t : Token) : (w.push t).ahead = w.ahead ++ [t] := by
  show (w.tokens ++ [t]).drop w.position = w.tokens.drop w.position ++ [t]
  exact List.drop_append_of_le_length h

lemma inRange_insert (h : w.InRange) (t : Token) : (w.insert t).InRange := by
  show w.position ≤ (w.tokens.insertIdx w.position t).length
  have hle : w.position ≤ w.tokens.length := h
  rw [List.length_insertIdx_of_le_length hle]
  omega

/-- A token that is put back comes first. -/
lemma ahead_insert (h : w.InRange) (t : Token) : (w.insert t).ahead = t :: w.ahead := by
  show (w.tokens.insertIdx w.position t).drop w.position = t :: w.tokens.drop w.position
  have hle : w.position ≤ w.tokens.length := h
  generalize w.tokens = ts at hle
  generalize w.position = n at hle
  induction n generalizing ts with
  | zero => rfl
  | succ n ih =>
    cases ts with
    | nil => simp at hle
    | cons u us => exact ih us (Nat.le_of_succ_le_succ hle)

/-- **A clean-up neither drops nor moves a token that is still to be consumed.** -/
lemma ahead_cleanUp (w : Window) : w.cleanUp.ahead = w.ahead := by
  unfold cleanUp
  split
  · have hle : w.removable ≤ w.position := Nat.min_le_left _ _
    show (w.tokens.drop w.removable).drop (w.position - w.removable) = w.tokens.drop w.position
    rw [List.drop_drop]
    congr 1
    omega
  · rfl

lemma inRange_cleanUp (h : w.InRange) : w.cleanUp.InRange := by
  unfold cleanUp
  split
  · have hle : w.position ≤ w.tokens.length := h
    show w.position - w.removable ≤ (w.tokens.drop w.removable).length
    rw [List.length_drop]
    omega
  · exact h

lemma consumed_cleanUp (w : Window) : w.cleanUp.consumed = w.consumed := by
  unfold cleanUp
  split <;> rfl

/-- At the end of a window there is nothing to consume. -/
lemma advance_of_ahead_eq_nil (h : w.ahead = []) : w.advance = (none, w) := by
  have hpeek : w.peek = none := by
    rw [peek, peekAt_eq_getElem?_ahead, h]
    rfl
  simp only [advance, hpeek]

/-- Otherwise the next token is consumed, and those behind it are ahead. -/
lemma advance_of_ahead_eq_cons {t : Token} {ts : List Token} (h : w.ahead = t :: ts) :
    w.advance.1 = some t ∧ w.advance.2.ahead = ts ∧ w.advance.2.InRange ∧
      w.advance.2.consumed = w.consumed + 1 := by
  have hpeek : w.peek = some t := by
    rw [peek, peekAt_eq_getElem?_ahead, h]
    rfl
  have hlt : w.position < w.tokens.length := by
    have hlength := congrArg List.length h
    rw [ahead, List.length_drop, List.length_cons] at hlength
    omega
  have htail : w.tokens.drop (w.position + 1) = ts := by
    have hdrop : w.tokens.drop w.position = t :: ts := h
    rw [← List.drop_drop, hdrop]
    rfl
  simp only [advance, hpeek, ahead_cleanUp, consumed_cleanUp]
  exact ⟨trivial, htail, inRange_cleanUp hlt, trivial⟩

end Window

/-! ## Readings -/

/-- A plain list of tokens that is read from the front, and how many have been read. -/
structure Reading where
  rest : List Token
  count : Nat := 0

namespace Buffered

/-- The operations of a reader. -/
inductive Op where
  | peek
  | peekAt (n : Nat)
  | advance
  | pushFront (t : Token)

/-- An operation on a buffered feed: the token that it gives, and the feed after it. -/
def perform (b : Buffered) : Op → Option Token × Buffered
  | .peek => b.peek
  | .peekAt n => b.peekAt n
  | .advance => b.advance
  | .pushFront t => (none, b.pushFront t)

/-- The feed after several operations. -/
def after (b : Buffered) : List Op → Buffered
  | [] => b
  | op :: ops => (b.perform op).2.after ops

/-- What several operations give, each with the number of tokens consumed by then. -/
def answers (b : Buffered) : List Op → List (Option Token × Nat)
  | [] => []
  | op :: ops => ((b.perform op).1, (b.perform op).2.consumed) :: (b.perform op).2.answers ops

end Buffered

namespace Reading

open Buffered (Op)

/-- An operation on a plain list. -/
def perform (r : Reading) : Op → Option Token × Reading
  | .peek => (r.rest.head?, r)
  | .peekAt n => (r.rest[n]?, r)
  | .advance =>
    match r.rest with
    | [] => (none, r)
    | t :: ts => (some t, { rest := ts, count := r.count + 1 })
  | .pushFront t => (none, { r with rest := t :: r.rest })

/-- The list after several operations. -/
def after (r : Reading) : List Op → Reading
  | [] => r
  | op :: ops => (r.perform op).2.after ops

/-- What several operations give, each with the number of tokens read by then. -/
def answers (r : Reading) : List Op → List (Option Token × Nat)
  | [] => []
  | op :: ops => ((r.perform op).1, (r.perform op).2.count) :: (r.perform op).2.answers ops

end Reading

/-! ## A buffered feed as a list -/

namespace Buffered

variable {b : Buffered} {r : Reading}

/-- A buffered feed without failures shows a plain list: the tokens ahead in the window, and then
those of the feed. -/
structure Shows (b : Buffered) (r : Reading) : Prop where
  inRange : b.window.InRange
  failure : b.failure = none
  tokens : ∃ us, b.feed = Feed.ofTokens us ∧ r.rest = b.window.ahead ++ us
  count : r.count = b.consumed

lemma shows_ofFeed (ts : List Token) (maxSize minSize : Nat) :
    (ofFeed (.ofTokens ts) maxSize minSize).Shows { rest := ts } where
  inRange := Window.inRange_ofSizes maxSize minSize
  failure := rfl
  tokens := ⟨ts, rfl, rfl⟩
  count := rfl

/-- Fetching moves tokens from the feed into the window, until enough are ahead or none is left. -/
lemma shows_fill (count line : Nat) (w : Window) (h : w.InRange) (us : List Token) :
    (fill count w line (.ofTokens us)).Shows ⟨w.ahead ++ us, w.consumed⟩ ∧
      (count ≤ (fill count w line (.ofTokens us)).window.ahead.length ∨
        (fill count w line (.ofTokens us)).window.ahead = w.ahead ++ us) := by
  induction us generalizing w line with
  | nil => exact ⟨⟨h, rfl, ⟨[], rfl, rfl⟩, rfl⟩, .inr (List.append_nil _).symm⟩
  | cons u us ih =>
    have hfeed : Feed.ofTokens (u :: us) = .ok u :: Feed.ofTokens us := rfl
    rw [hfeed, fill]
    by_cases hcount : w.hasAtLeast count = true
    · rw [if_pos hcount]
      refine ⟨⟨h, rfl, ⟨u :: us, rfl, rfl⟩, rfl⟩, .inl ?_⟩
      rw [← Window.available_eq_length_ahead]
      exact of_decide_eq_true hcount
    · rw [if_neg hcount]
      have hpush := ih u.line (w.push u) (Window.inRange_push h u)
      rw [Window.ahead_push h u, List.append_assoc] at hpush
      exact hpush

/-- So does making sure that enough tokens are ahead; then the tokens in front are in the window. -/
lemma Shows.ensure (h : b.Shows r) (count : Nat) :
    (b.ensure count).Shows r ∧ ∀ n < count, (b.ensure count).window.ahead[n]? = r.rest[n]? := by
  obtain ⟨us, hfeed, hrest⟩ := h.tokens
  have hensure : b.ensure count = fill count b.window b.line (.ofTokens us) := by
    simp only [Buffered.ensure, h.failure, hfeed]
  have hreading : (⟨b.window.ahead ++ us, b.window.consumed⟩ : Reading) = r := by
    rw [← hrest]
    show Reading.mk r.rest b.consumed = r
    rw [← h.count]
  obtain ⟨hshows, henough⟩ := shows_fill count b.line b.window h.inRange us
  rw [← hensure] at henough hshows
  rw [hreading] at hshows
  refine ⟨hshows, fun n hn => ?_⟩
  rcases henough with hlength | hall
  · -- the place lies in the window
    obtain ⟨vs, -, hrest'⟩ := hshows.tokens
    rw [hrest', List.getElem?_append_left (by omega)]
  · rw [hall, hrest]

/-- **One operation.** It gives the same on a buffered feed and on the list that it shows, and the
feed still shows the list afterwards. -/
lemma Shows.perform (h : b.Shows r) (op : Op) :
    (b.perform op).1 = (r.perform op).1 ∧ (b.perform op).2.Shows (r.perform op).2 := by
  cases op with
  | peek =>
    obtain ⟨hshows, hahead⟩ := h.ensure 1
    refine ⟨?_, hshows⟩
    show (b.ensure 1).window.peekAt 0 = r.rest.head?
    rw [Window.peekAt_eq_getElem?_ahead, hahead 0 Nat.one_pos, List.head?_eq_getElem?]
  | peekAt n =>
    obtain ⟨hshows, hahead⟩ := h.ensure (n + 1)
    refine ⟨?_, hshows⟩
    show (b.ensure (n + 1)).window.peekAt n = r.rest[n]?
    rw [Window.peekAt_eq_getElem?_ahead, hahead n (Nat.lt_succ_self n)]
  | advance =>
    obtain ⟨hshows, hahead⟩ := h.ensure 1
    obtain ⟨us, hfeed, hrest⟩ := hshows.tokens
    have hhead := hahead 0 Nat.one_pos
    show ((b.ensure 1).window.advance.1 = _) ∧
      Shows { b.ensure 1 with window := (b.ensure 1).window.advance.2 } _
    cases hr : r.rest with
    | nil =>
      -- nothing is ahead, and the state stays
      have hnil : (b.ensure 1).window.ahead = [] := (List.append_eq_nil_iff.1 (hrest ▸ hr)).1
      rw [Window.advance_of_ahead_eq_nil hnil]
      simp only [Reading.perform, hr]
      exact ⟨trivial, hshows⟩
    | cons t ts =>
      rw [hr] at hhead
      cases hw : (b.ensure 1).window.ahead with
      | nil => simp [hw] at hhead
      | cons u vs =>
        rw [hr, hw, List.cons_append, List.cons.injEq] at hrest
        obtain ⟨rfl, rfl⟩ := hrest
        obtain ⟨hfst, hsnd, hrange, hconsumed⟩ := Window.advance_of_ahead_eq_cons hw
        simp only [Reading.perform, hr]
        refine ⟨hfst, hrange, hshows.failure, ⟨us, hfeed, ?_⟩, ?_⟩
        · show vs ++ us = (b.ensure 1).window.advance.2.ahead ++ us
          rw [hsnd]
        · show r.count + 1 = (b.ensure 1).window.advance.2.consumed
          rw [hconsumed, hshows.count]
          rfl
  | pushFront t =>
    obtain ⟨us, hfeed, hrest⟩ := h.tokens
    refine ⟨rfl, Window.inRange_insert h.inRange t, h.failure, ⟨us, hfeed, ?_⟩, h.count⟩
    show t :: r.rest = (b.window.insert t).ahead ++ us
    rw [Window.ahead_insert h.inRange, hrest, List.cons_append]

/-- **A run of operations.** Both give the same answers, and still agree afterwards. -/
lemma Shows.run (h : b.Shows r) (ops : List Op) :
    b.answers ops = r.answers ops ∧ (b.after ops).Shows (r.after ops) := by
  induction ops generalizing b r with
  | nil => exact ⟨rfl, h⟩
  | cons op ops ih =>
    obtain ⟨hgives, hshows⟩ := h.perform op
    obtain ⟨hanswers, hafter⟩ := ih hshows
    refine ⟨?_, hafter⟩
    rw [answers, Reading.answers, hgives, hshows.count, hanswers]

end Buffered

end ClassLang
