import ClassLang.Cursor.Buffered
import ClassLang.Main
import ClassLang.Proofs.Grammar.ExprRoundTrip
import ClassLang.Proofs.Grammar.Chains
import ClassLang.Proofs.Grammar.Passage
import ClassLang.Proofs.Grammar.BracketText
import ClassLang.Proofs.Grammar.BracketGroups
import ClassLang.Proofs.Grammar.LexicalErrors
import ClassLang.Proofs.Grammar.Lockstep
import ClassLang.Proofs.Grammar.ExprLockstep
import ClassLang.Proofs.Grammar.ProgramLockstep
import ClassLang.Proofs.Grammar.Termination
import ClassLang.Proofs.Grammar.ProgramRoundTrip
import ClassLang.Proofs.Cursor.ListView
import ClassLang.Proofs.Analysis.Alike
import ClassLang.Proofs.Analysis.Composition
import ClassLang.Proofs.Analysis.FailFast
import ClassLang.Proofs.Analysis.Frame
import ClassLang.Proofs.Analysis.Declarations
import ClassLang.Proofs.Analysis.Order
import ClassLang.Proofs.Analysis.ControlFlow
import ClassLang.Proofs.Analysis.Parts
import ClassLang.Proofs.Analysis.ClassTable
import ClassLang.Proofs.Text.Marks
import ClassLang.Proofs.Token.DumpRoundTrip
import ClassLang.Proofs.Token.Retraction
import ClassLang.Proofs.Token.Tiling
import ClassLang.Proofs.Token.LongestOperators
import ClassLang.Proofs.Token.Lexemes
import ClassLang.Proofs.Token.Rescanning
import ClassLang.Proofs.Session.Staging
import ClassLang.Proofs.Session.SourceFailure
import ClassLang.Proofs.Session.TokenNumbers
import ClassLang.Proofs.Token.LineNumbers
import ClassLang.Proofs.Target.Operations
import ClassLang.Proofs.Target.Scanning
import ClassLang.Proofs.Target.Grouping
import ClassLang.Proofs.Target.Sites
import ClassLang.Proofs.Target.CheckedSites
import ClassLang.Proofs.Target.RenderedSites
import ClassLang.Proofs.Target.BuiltinTypes
import ClassLang.Proofs.Target.StaticTyping
import ClassLang.Proofs.Target.Skeleton
import ClassLang.Proofs.Target.CodeText
import ClassLang.Proofs.Target.Scoping
import ClassLang.Proofs.Grammar.PairedRuns
import ClassLang.Proofs.Grammar.SignSplitting
import ClassLang.Proofs.Ty.Assignability
import ClassLang.Proofs.Grammar.GluedAngles
import ClassLang.Proofs.Grammar.TypeRoundTrip
import ClassLang.Proofs.Analysis.Slots
import ClassLang.Proofs.Analysis.Visits
import ClassLang.Proofs.Analysis.Redeclaration
import ClassLang.Proofs.Token.Respelling
import ClassLang.Proofs.Grammar.Mirror
import ClassLang.Proofs.Grammar.MirroredExpr
import ClassLang.Proofs.Grammar.MirroredOperand
import ClassLang.Proofs.Grammar.Appended
import ClassLang.Proofs.Grammar.Indexing
import ClassLang.Proofs.Analysis.Nodes
import ClassLang.Proofs.Analysis.FieldAccesses
import ClassLang.Proofs.Analysis.Writes
import ClassLang.Proofs.Analysis.NestedBraces
import ClassLang.Proofs.Analysis.SwitchLabels
import ClassLang.Proofs.Grammar.Origins
import ClassLang.Proofs.Target.Layouts
import ClassLang.Proofs.Grammar.DeclaredNames
