import PatternMarkup.Command.Argument
import PatternMarkup.Command.Check
import PatternMarkup.Command.Help
import PatternMarkup.Command.Outcome
import PatternMarkup.Command.Request
import PatternMarkup.Command.Run
import PatternMarkup.Command.Settings
import PatternMarkup.Drawing.Sheet
import PatternMarkup.Drawing.Figure
import PatternMarkup.Drawing.Look
import PatternMarkup.Drawing.Pattern
import PatternMarkup.Exchange.Drawing
import PatternMarkup.Exchange.Figure
import PatternMarkup.Exchange.Formula
import PatternMarkup.Exchange.Geometry
import PatternMarkup.Exchange.Markup
import PatternMarkup.Exchange.Pattern
import PatternMarkup.Exchange.Problem
import PatternMarkup.Exchange.Tag
import PatternMarkup.Exchange.Tree
import PatternMarkup.Fields
import PatternMarkup.Files.Access
import PatternMarkup.Files.Glob
import PatternMarkup.Files.Path
import PatternMarkup.Files.Store
import PatternMarkup.Formula.Apply
import PatternMarkup.Formula.Ast
import PatternMarkup.Formula.Builtin
import PatternMarkup.Formula.Check
import PatternMarkup.Formula.Error
import PatternMarkup.Formula.Evaluate
import PatternMarkup.Formula.Fold
import PatternMarkup.Formula.Lexer
import PatternMarkup.Formula.Literal
import PatternMarkup.Formula.Operator
import PatternMarkup.Formula.Parser
import PatternMarkup.Formula.Pieces
import PatternMarkup.Formula.Scope
import PatternMarkup.Formula.Template
import PatternMarkup.Formula.Token
import PatternMarkup.Formula.Typed
import PatternMarkup.Formula.Value
import PatternMarkup.Formula.ValueType
import PatternMarkup.Geometry.Basic
import PatternMarkup.Geometry.Color
import PatternMarkup.Geometry.Mapping
import PatternMarkup.Geometry.Path
import PatternMarkup.Geometry.PathReader
import PatternMarkup.Geometry.SliceInference
import PatternMarkup.Geometry.Slicing
import PatternMarkup.Geometry.Transform
import PatternMarkup.Json.Basic
import PatternMarkup.Json.Canonical
import PatternMarkup.Json.Fault
import PatternMarkup.Json.Lexeme
import PatternMarkup.Json.Reader
import PatternMarkup.Json.Shape
import PatternMarkup.Json.StringText
import PatternMarkup.Json.Writer
import PatternMarkup.Main
import PatternMarkup.Markup.Arena
import PatternMarkup.Markup.Walk
import PatternMarkup.Markup.Diagnostic
import PatternMarkup.Markup.Document
import PatternMarkup.Markup.Entity
import PatternMarkup.Markup.Token
import PatternMarkup.Markup.Identifier
import PatternMarkup.Markup.Scanner
import PatternMarkup.Markup.Span
import PatternMarkup.Number.Basic
import PatternMarkup.Number.Double
import PatternMarkup.Number.Shortest
import PatternMarkup.Number.Numeral
import PatternMarkup.Pattern.Argument
import PatternMarkup.Pattern.ArgumentValues
import PatternMarkup.Pattern.Basic
import PatternMarkup.Pattern.Bind.Content
import PatternMarkup.Pattern.Bind.Declaration
import PatternMarkup.Pattern.Bind.Document
import PatternMarkup.Pattern.Bind.Figure
import PatternMarkup.Pattern.Bind.Pattern
import PatternMarkup.Pattern.Bind.Step
import PatternMarkup.Pattern.Bind.Style
import PatternMarkup.Pattern.Bind.Value
import PatternMarkup.Pattern.Bind.Variable
import PatternMarkup.Pattern.Canvas
import PatternMarkup.Pattern.Cycle
import PatternMarkup.Pattern.Figure
import PatternMarkup.Pattern.Identity
import PatternMarkup.Pattern.Instance
import PatternMarkup.Pattern.InstanceBinding
import PatternMarkup.Pattern.Reference
import PatternMarkup.Pattern.Tag
import PatternMarkup.Pattern.Usage
import PatternMarkup.Text.Blank
import PatternMarkup.Text.Bytes
import PatternMarkup.Text.Hexadecimal
import PatternMarkup.Text.Quoted
import PatternMarkup.Proofs.Markup.Coverage
import PatternMarkup.Proofs.Formula.Folding
import PatternMarkup.Proofs.Formula.Grammar
import PatternMarkup.Proofs.Formula.GrammarReading
import PatternMarkup.Proofs.Markup.Print
import PatternMarkup.Proofs.Markup.PrintTokens
import PatternMarkup.Proofs.Markup.Nodes
import PatternMarkup.Proofs.Markup.PrintTree
import PatternMarkup.Proofs.Formula.Conformance
import PatternMarkup.Proofs.Formula.OperatorTyping
import PatternMarkup.Proofs.Formula.TypeSoundness
import PatternMarkup.Proofs.Formula.FunctionTyping
import PatternMarkup.Proofs.Formula.Bracing
import PatternMarkup.Proofs.Formula.FoldedReading
import PatternMarkup.Proofs.Formula.TrackedReading
import PatternMarkup.Proofs.Formula.Recursion
import PatternMarkup.Proofs.Formula.Templates
import PatternMarkup.Proofs.Fields
import PatternMarkup.Proofs.Formula.Coercion
import PatternMarkup.Proofs.Formula.Delivery
import PatternMarkup.Proofs.Formula.Scanning
import PatternMarkup.Proofs.Formula.NodesRead
import PatternMarkup.Proofs.Formula.Printing
import PatternMarkup.Proofs.Markup.NodeOrder
import PatternMarkup.Proofs.Markup.TreeGrowth
import PatternMarkup.Proofs.Markup.TreeInvariant
import PatternMarkup.Proofs.Markup.WellFormed
import PatternMarkup.Proofs.Markup.Places
import PatternMarkup.Proofs.Markup.ScannedPlaces
import PatternMarkup.Proofs.Markup.TreePlaces
import PatternMarkup.Proofs.Markup.FirstReports
import PatternMarkup.Proofs.Markup.FaultPlaces
import PatternMarkup.Proofs.Markup.TreeFaults
import PatternMarkup.Proofs.Markup.DocumentReports
import PatternMarkup.Proofs.Pattern.FinishOrder
import PatternMarkup.Proofs.Pattern.VariableCycles
import PatternMarkup.Proofs.Formula.ScanCuts
import PatternMarkup.Proofs.Formula.TokenPlaces
import PatternMarkup.Proofs.Formula.ReadingRules
import PatternMarkup.Proofs.Formula.PlacedReading
import PatternMarkup.Proofs.Formula.Relocation
import PatternMarkup.Proofs.Formula.NodeRanges
import PatternMarkup.Proofs.Drawing.Brackets
import PatternMarkup.Proofs.Pattern.ReadingSteps
import PatternMarkup.Proofs.Markup.StartTags
import PatternMarkup.Proofs.Markup.Copies
import PatternMarkup.Proofs.Pattern.BoundFigures
import PatternMarkup.Proofs.Pattern.Expansion
import PatternMarkup.Proofs.Pattern.UnusablePatterns
import PatternMarkup.Proofs.Markup.DeepCopies
import PatternMarkup.Proofs.Markup.PrunedWalks
import PatternMarkup.Proofs.Pattern.UnusedReport
import PatternMarkup.Proofs.Formula.Forms
import PatternMarkup.Proofs.Markup.Comments
import PatternMarkup.Proofs.Formula.LiteralScopes
import PatternMarkup.Proofs.Formula.NamesRead
import PatternMarkup.Proofs.Formula.ErrorSources
import PatternMarkup.Proofs.Formula.PredictedErrors
import PatternMarkup.Proofs.Formula.FunctionTables
import PatternMarkup.Proofs.Formula.ExactIntegers
import PatternMarkup.Proofs.Pattern.ReportedCycles
import PatternMarkup.Proofs.Number.IntegerDoubles
import PatternMarkup.Proofs.Formula.CombinedExpressions
import PatternMarkup.Proofs.Formula.IntegerComparison
import PatternMarkup.Proofs.Formula.ByteScanning
import PatternMarkup.Proofs.Formula.SlicedReading
import PatternMarkup.Proofs.Formula.TextParts
import PatternMarkup.Proofs.Formula.LiteralRanges
import PatternMarkup.Proofs.Pattern.DeclaredArguments
import PatternMarkup.Proofs.Pattern.ArgumentTypes
import PatternMarkup.Proofs.Pattern.AbsentArguments
import PatternMarkup.Proofs.Formula.FoldedForm
import PatternMarkup.Proofs.Formula.ReadingElsewhere
import PatternMarkup.Proofs.Formula.ListItems
import PatternMarkup.Proofs.Pattern.BindingOutcomes
import PatternMarkup.Proofs.Pattern.NumberedAttributes
import PatternMarkup.Proofs.Pattern.AttributeOrder
import PatternMarkup.Proofs.Pattern.ArgumentTests
import PatternMarkup.Proofs.Pattern.AttributeReaders
import PatternMarkup.Proofs.Pattern.ArgumentScopes
import PatternMarkup.Proofs.Pattern.ExampleInstances
import PatternMarkup.Proofs.Pattern.ExampleValues
import PatternMarkup.Proofs.Number.ExactNumbers
import PatternMarkup.Proofs.Drawing.Translation
import PatternMarkup.Proofs.Drawing.Attempts
import PatternMarkup.Proofs.Pattern.TakenStyles
import PatternMarkup.Proofs.Drawing.CascadedStyles
import PatternMarkup.Proofs.Pattern.ReadingPlaces
import PatternMarkup.Proofs.Pattern.ReportPlaces
import PatternMarkup.Proofs.Geometry.AxisLayout
import PatternMarkup.Proofs.Geometry.AxisMapping
import PatternMarkup.Proofs.Geometry.InferredLayout
import PatternMarkup.Proofs.Geometry.RepeatedSteps
import PatternMarkup.Proofs.Files.NormalPaths
import PatternMarkup.Proofs.Markup.TextTokens
