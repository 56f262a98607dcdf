import ClassLang.Text.Blank

/-!
# Bracket groups

A word takes brackets into its lexeme, so the text of an index has to be taken apart again. The
text is split into groups, each from a `[` to the `]` that matches it.

## Main definitions

* `ClassLang.Brackets.depth`: how many brackets of a text stay open.
* `ClassLang.Brackets.split`: the groups at the front of a text, and the rest.
* `ClassLang.Brackets.spaceOut`: a text with every bracket set apart by spaces.
-/

set_option autoImplicit false

namespace ClassLang.Brackets

/-- The number of `[` less the number of `]`. -/
def depth (cs : List Char) : Int :=
  cs.foldl (fun d c => if c = '[' then d + 1 else if c = ']' then d - 1 else d) 0

/-- Whether a text is a sequence of pairs `[]`. -/
def isPairs : List Char → Bool
  | [] => true
  | [_] => false
  | c :: d :: cs => c = '[' && d = ']' && isPairs cs

/-- How long the run of groups at the front of a text is. `opened` brackets are open after `seen`
characters, and the groups that are complete by then are `done` characters long. -/
def groupsLength (opened seen done : Nat) : List Char → Nat
  | [] => done
  | c :: cs =>
    if c = '[' then groupsLength (opened + 1) (seen + 1) done cs
    else if c = ']' then
      match opened with
      | 0 => done
      | 1 =>
        if (Text.trimStart cs).head? = some '[' then groupsLength 0 (seen + 1) (seen + 1) cs
        else seen + 1
      | inner + 2 => groupsLength (inner + 1) (seen + 1) done cs
    else if opened = 0 && !Text.isWhiteSpace c then done
    else groupsLength opened (seen + 1) done cs

/-- The bracket groups at the front of a text with white space between them, and the rest of the
text. -/
def split (cs : List Char) : List Char × List Char :=
  cs.splitAt (groupsLength 0 0 0 cs)

/-- A text with a space on either side of every bracket. -/
def spaceOut (cs : List Char) : List Char :=
  cs.flatMap fun c => if c = '[' || c = ']' then [' ', c, ' '] else [c]

end ClassLang.Brackets
