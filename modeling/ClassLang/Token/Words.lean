/-!
# Words of the language

The keywords and operators, and the words that may start a type. An array type such as `int[][]`
is one word, so the array suffix `[]` is taken off where a table is consulted.

## Main definitions

* `ClassLang.Word.isKeyword`, `ClassLang.Word.isOperator`, `ClassLang.Word.isTypeKeyword`.
* `ClassLang.Word.splitArray`: a word without its array suffixes, and how many there were.
-/

set_option autoImplicit false

namespace ClassLang.Word

/-- The keywords. Four names of library classes are among them. -/
def keywords : List String :=
  ["abstract", "assert", "boolean", "break", "byte", "case", "catch", "char", "class", "const",
    "continue", "default", "do", "double", "else", "enum", "extends", "final", "finally", "float",
    "for", "goto", "if", "implements", "import", "instanceof", "int", "interface", "long",
    "native", "new", "null", "package", "private", "protected", "public", "return", "short",
    "static", "strictfp", "super", "switch", "synchronized", "this", "throw", "throws",
    "transient", "try", "void", "volatile", "while", "true", "false", "String", "ArrayList",
    "HashMap", "HashSet"]

/-- The operators, separators and brackets included. -/
def operators : List String :=
  ["+", "-", "*", "/", "%", "++", "--", "==", "!=", ">", "<", ">=", "<=", "&&", "||", "!", "=",
    "+=", "-=", "*=", "/=", "%=", "&", "|", "^", "~", "<<", ">>", ">>>", "?", ":", "::", ".", ",",
    ";", "(", ")", "\x7b", "\x7d", "[", "]"]

/-- Words that stay keywords with an array suffix. -/
def arrayBases : List String :=
  ["boolean", "byte", "char", "short", "int", "long", "float", "double", "String"]

/-- Keywords that name a type. -/
def typeKeywords : List String :=
  arrayBases ++ ["void", "ArrayList", "HashMap", "HashSet"]

/-- Takes the suffixes `[]` off a word given in reverse, and counts them. -/
def splitArrayReversed : List Char → List Char × Nat
  | ']' :: '[' :: rest =>
    let (base, count) := splitArrayReversed rest
    (base, count + 1)
  | cs => (cs, 0)

/-- A word without its suffixes `[]`, and their number. -/
def splitArray (word : String) : String × Nat :=
  let (base, count) := splitArrayReversed word.toList.reverse
  (String.ofList base.reverse, count)

/-- Whether a word is a keyword: one of the table, or an array of a primitive type or of
strings. -/
def isKeyword (word : String) : Bool :=
  keywords.contains word ||
    (let (base, count) := splitArray word
     0 < count && arrayBases.contains base)

/-- Whether a text is an operator. -/
def isOperator (text : String) : Bool :=
  operators.contains text

/-- Whether a keyword names a type and so may start a declaration. -/
def isTypeKeyword (word : String) : Bool :=
  typeKeywords.contains word || 0 < (splitArray word).2

end ClassLang.Word
