import Fisics.Preprocessor.ExprCorrect
import Fisics.Preprocessor.TextLines
import Fisics.Preprocessor.Decline
import Fisics.Syntax.LayoutLaws
import Fisics.CodeGen.TypeCacheLaws
import Fisics.Extensions.UnitsQuantity
import Fisics.Syntax.ControlFlowSound
import Fisics.Parser.TypedefScopeCorrect
import Fisics.Parser.TypeName
import Fisics.Runtime.MemcheckRuns
import Fisics.Compiler.ProjectJsonCorrect
import Fisics.Preprocessor.Stringify
import Fisics.Preprocessor.Placemarkers
import Fisics.Extensions.PhysicalOrigins
import Fisics.Extensions.PhysicalDimensions
import Fisics.Preprocessor.VaOpt
import Fisics.Preprocessor.ParameterList
import Fisics.Lexer.LiteralText
import Fisics.Preprocessor.ExpanderStack
import Fisics.Preprocessor.HideSets
import Fisics.Compiler.SemanticProjectCorrect
import Fisics.Syntax.FoldingHost
import Fisics.Preprocessor.ExprHost
import Fisics.Lexer.NullDirective
import Fisics.Syntax.SizeRoutes
import Fisics.Syntax.ArithmeticConversions
import Fisics.Syntax.PointerLevels
import Fisics.Syntax.AdjacentLiterals
import Fisics.CodeGen.BitFields
import Fisics.CodeGen.AggregateAbiCorrect
import Fisics.CodeGen.Subscripts
import Fisics.CodeGen.ConstInitializersCorrect
import Fisics.Syntax.GotoScopesCorrect
import Fisics.Parser.CommaStatements
import Fisics.Parser.TypeEquality
import Fisics.Syntax.CompositeTypesCorrect
import Fisics.Syntax.RecordFingerprintCorrect
import Fisics.Parser.DeclSpecifiersCorrect
import Fisics.Syntax.ArrayBounds
import Fisics.Extensions.FactTable
import Fisics.Extensions.RuleLookup
import Fisics.Syntax.SwitchLabels
import Fisics.Compiler.CanonicalReferences
import Fisics.Extensions.PhysicalTrust
import Fisics.Preprocessor.Transparent
import Fisics.Syntax.CanonicalConstants
import Fisics.Preprocessor.SummaryTiles
import Fisics.Compiler.ManifestPaths
import Fisics.Parser.TypeSummaries
import Fisics.Preprocessor.TextRuns
