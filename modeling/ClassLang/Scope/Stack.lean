/-!
# Stacks

Stacks are lists with the innermost item first.

## Main definitions

* `ClassLang.Stack.truncate`: what is left of a stack when the items above a depth are dropped.
-/

set_option autoImplicit false

namespace ClassLang.Stack

variable {α : Type}

/-- Drops items from the top until at most `depth` are left. -/
def truncate (depth : Nat) (stack : List α) : List α :=
  stack.drop (stack.length - depth)

/-- Truncation to the depth of a stack undoes what was put on top of it. -/
@[simp]
theorem truncate_length_append (above stack : List α) :
    truncate stack.length (above ++ stack) = stack := by
  simp [truncate]

@[simp]
theorem truncate_length (stack : List α) : truncate stack.length stack = stack := by
  simp [truncate]

end ClassLang.Stack
