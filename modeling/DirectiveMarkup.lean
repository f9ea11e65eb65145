import DirectiveMarkup.Text.Blank
import DirectiveMarkup.Text.ByteSize
import DirectiveMarkup.Text.Search
import DirectiveMarkup.Text.CodeRange
import DirectiveMarkup.Text.Letter
import DirectiveMarkup.Text.Case
import DirectiveMarkup.Number.Binary64
import DirectiveMarkup.Number.Decimal
import DirectiveMarkup.Markup.Node
import DirectiveMarkup.Markup.Lexeme
import DirectiveMarkup.Markup.Forest
import DirectiveMarkup.Expression.Fields
import DirectiveMarkup.Expression.Value
import DirectiveMarkup.Expression.Error
import DirectiveMarkup.Expression.Tree
import DirectiveMarkup.Expression.Complexity
import DirectiveMarkup.Expression.Reader
import DirectiveMarkup.Expression.Grammar
import DirectiveMarkup.Expression.Method
import DirectiveMarkup.Expression.Evaluate
import DirectiveMarkup.Interpolation
import DirectiveMarkup.Directive
import DirectiveMarkup.Stylesheet
import DirectiveMarkup.Compile.Error
import DirectiveMarkup.Compile.Notice
import DirectiveMarkup.Compile.Element
import DirectiveMarkup.Compile.Report
import DirectiveMarkup.Yaml.Cursor
import DirectiveMarkup.Yaml.Scalar
import DirectiveMarkup.Yaml.Token
import DirectiveMarkup.Yaml.Document
import DirectiveMarkup.Yaml.Value
import DirectiveMarkup.Settings
import DirectiveMarkup.Yaml.Settings
import DirectiveMarkup.CommandLine.Arguments
import DirectiveMarkup.CommandLine.Run
import DirectiveMarkup.Main
import DirectiveMarkup.Proofs.Occurrences
import DirectiveMarkup.Proofs.Treatment
import DirectiveMarkup.Proofs.Desugar
import DirectiveMarkup.Proofs.Spans
import DirectiveMarkup.Proofs.Consumption
import DirectiveMarkup.Proofs.Quotation
import DirectiveMarkup.Proofs.Lexing
import DirectiveMarkup.Proofs.Reading
import DirectiveMarkup.Proofs.Settling
import DirectiveMarkup.Proofs.SettledOutcome
import DirectiveMarkup.Proofs.Substitution
import DirectiveMarkup.Proofs.Inter
import DirectiveMarkup.Proofs.Plain
import DirectiveMarkup.Proofs.Each
import DirectiveMarkup.Proofs.Escaping
import DirectiveMarkup.Proofs.PartialFailure
import DirectiveMarkup.Proofs.Canonical
import DirectiveMarkup.Proofs.Trimming
import DirectiveMarkup.Proofs.WellRead
import DirectiveMarkup.Proofs.Coalescing
import DirectiveMarkup.Proofs.Renaming
import DirectiveMarkup.Proofs.Structure
import DirectiveMarkup.Proofs.Clean
import DirectiveMarkup.Proofs.FixedPoint
import DirectiveMarkup.Proofs.Depth
import DirectiveMarkup.Proofs.Propagation
import DirectiveMarkup.Proofs.BehindHalts
import DirectiveMarkup.Proofs.CallStack
import DirectiveMarkup.Proofs.Phrase
import DirectiveMarkup.Proofs.Derivation
import DirectiveMarkup.Proofs.Marking
import DirectiveMarkup.Proofs.Passage
import DirectiveMarkup.Proofs.Measuring
import DirectiveMarkup.Proofs.ExpressionLimits
import DirectiveMarkup.Proofs.Standing
import DirectiveMarkup.Proofs.Taking
import DirectiveMarkup.Proofs.ReadingBack
import DirectiveMarkup.Proofs.WholeNumbers
import DirectiveMarkup.Proofs.Printing
import DirectiveMarkup.Proofs.Acceptance
import DirectiveMarkup.Proofs.Walk
import DirectiveMarkup.Proofs.Balancing
import DirectiveMarkup.Proofs.Shape
import DirectiveMarkup.Proofs.Pieces
import DirectiveMarkup.Proofs.Division
import DirectiveMarkup.Proofs.SinglePass
import DirectiveMarkup.Proofs.ByteScanner
import DirectiveMarkup.Proofs.EagerEvaluation
import DirectiveMarkup.Proofs.NamesRead
import DirectiveMarkup.Proofs.ScannerSafety
import DirectiveMarkup.Proofs.SelectorRules
import DirectiveMarkup.Proofs.Comparison
import DirectiveMarkup.Proofs.Places
import DirectiveMarkup.Proofs.Splitting
import DirectiveMarkup.Proofs.Bindings
import DirectiveMarkup.Proofs.RunOutcome
import DirectiveMarkup.Proofs.Remainders
import DirectiveMarkup.Proofs.FaultPlaces
