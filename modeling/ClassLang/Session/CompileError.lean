import ClassLang.Analysis.Error
import ClassLang.Syntax.Error
import ClassLang.Target.Needs

/-!
# Failed compilations

## Main definitions

* `ClassLang.CompileError`: the stage at which a compilation failed, with what it reports.
* `ClassLang.CompileError.diagnostics`, `ClassLang.CompileError.text`: the reports one by one, and
  all in one text.
-/

set_option autoImplicit false

namespace ClassLang

/-- Why a compilation failed. -/
inductive CompileError where
  | parse (e : SyntaxError)
  | semantic (errors : List SemanticError)
  | generation (e : Target.Unsupported)

namespace CompileError

/-- The reports in the order in which they were found. -/
def diagnostics : CompileError → List String
  | parse e => [e.text]
  | semantic errors => errors.map SemanticError.text
  | generation e => [e.message]

/-- The reports in one text. -/
def text : CompileError → String
  | parse e => "Parse error: " ++ e.text
  | semantic errors =>
    "Semantic analysis failed with " ++ toString errors.length ++ " error(s)" ++
      String.join (errors.map fun e => "\n  " ++ e.text)
  | generation e => "Code generation error: " ++ e.message

end CompileError

end ClassLang
