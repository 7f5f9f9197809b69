import VieCompiler.Text.Printable
import VieCompiler.Text.Blank
import VieCompiler.Text.Digits
import VieCompiler.Text.Quoted
import VieCompiler.Syntax.Token
import VieCompiler.Syntax.Lexer
import VieCompiler.Diagnostic
import VieCompiler.Number.Binary64
import VieCompiler.Number.Shortest
import VieCompiler.Number.Format
import VieCompiler.Number.Reading
import VieCompiler.Syntax.Ast
import VieCompiler.Syntax.ParseError
import VieCompiler.Syntax.Parser
import VieCompiler.Json.Value
import VieCompiler.Json.Tree
import VieCompiler.Json.Depth
import VieCompiler.Code.Emit
import VieCompiler.Code.Emitter
import VieCompiler.Code.CallDepth
import VieCompiler.Code.Prelude
import VieCompiler.Compile
import VieCompiler.Command.Options
import VieCompiler.Command.Host
import VieCompiler.Command.Run
import VieCompiler.Command.Workspace
import VieCompiler.Main
import VieCompiler.Proofs.Script.Lexer
import VieCompiler.Proofs.Script.Reading
import VieCompiler.Proofs.Script.Syntax
import VieCompiler.Proofs.Script.Parser
import VieCompiler.Proofs.Script.Productions
import VieCompiler.Proofs.Layout
import VieCompiler.Proofs.Lowering
import VieCompiler.Proofs.Nesting
import VieCompiler.Proofs.Program
import VieCompiler.Proofs.Script.Precedence
import VieCompiler.Proofs.Script.Chains
import VieCompiler.Proofs.Statements
import VieCompiler.Proofs.LexicalGrammar
import VieCompiler.Proofs.TokenShapes
import VieCompiler.Proofs.WellFormed
import VieCompiler.Proofs.Rendering
import VieCompiler.Proofs.Indentation
import VieCompiler.Proofs.NearestDouble
import VieCompiler.Proofs.ShortestDecimal
import VieCompiler.Proofs.Numerals
import VieCompiler.Proofs.WrittenNumbers
import VieCompiler.Proofs.NumberToString
import VieCompiler.Proofs.StringLiterals
import VieCompiler.Proofs.ElseIf
import VieCompiler.Proofs.Confinement
import VieCompiler.Proofs.Banner
import VieCompiler.Proofs.Budget
import VieCompiler.Proofs.LexicalTokens
import VieCompiler.Proofs.Expressions
import VieCompiler.Proofs.Lookahead
import VieCompiler.Proofs.Closers
import VieCompiler.Proofs.Completions
import VieCompiler.Proofs.ErrorDecision
import VieCompiler.Proofs.FirstError
import VieCompiler.Proofs.LineBuffer
import VieCompiler.Proofs.WholeDoubles
import VieCompiler.Proofs.SourcePrinter
import VieCompiler.Proofs.Continuations
import VieCompiler.Proofs.PrintedText
import VieCompiler.Proofs.ReadingBack
import VieCompiler.Proofs.Negations
import VieCompiler.Proofs.Reprinting
import VieCompiler.Proofs.ShortestRoundTrip
