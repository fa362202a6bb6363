import MatrixSteps.Number.Binary
import MatrixSteps.Number.Decimal
import MatrixSteps.Number.Shortest
import MatrixSteps.Number.Notation
import MatrixSteps.Number.Places
import MatrixSteps.Number.FloatLiteral
import MatrixSteps.Text.Blank
import MatrixSteps.Text.Upper
import MatrixSteps.Text.Quoted
import MatrixSteps.Json.Basic
import MatrixSteps.Json.Reader
import MatrixSteps.Json.Writer
import MatrixSteps.Operation
import MatrixSteps.Matrix.Basic
import MatrixSteps.Fault
import MatrixSteps.Matrix.Narration
import MatrixSteps.Matrix.Sum
import MatrixSteps.Matrix.Product
import MatrixSteps.Matrix.Transpose
import MatrixSteps.Matrix.Scale
import MatrixSteps.Expression.Token
import MatrixSteps.Expression.Postfix
import MatrixSteps.Expression.Operator
import MatrixSteps.Expression.Variables
import MatrixSteps.Expression.Evaluation
import MatrixSteps.Workbench.Log
import MatrixSteps.Workbench.Session
import MatrixSteps.Contract.Schema
import MatrixSteps.Contract.Libraries
import MatrixSteps.Contract.Load
import MatrixSteps.Expression.Tree
import MatrixSteps.Proofs.PostfixOrder
import MatrixSteps.Proofs.StackMachine
import MatrixSteps.Proofs.FaultTaxonomy
import MatrixSteps.Proofs.FloatBits
import MatrixSteps.Proofs.WholeFloat
import MatrixSteps.Proofs.WholeDecimal
import MatrixSteps.Proofs.WholeMatrix
import MatrixSteps.Proofs.WholeEvaluation
import MatrixSteps.Proofs.NameResolution
import MatrixSteps.Proofs.ShapeInvariant
import MatrixSteps.Proofs.SignedZero
import MatrixSteps.Proofs.OperatorChains
import MatrixSteps.Proofs.BatchAggregates
import MatrixSteps.Proofs.IntegerNumerals
import MatrixSteps.Proofs.PowerPaths
import MatrixSteps.Proofs.ParenthesisGroups
import MatrixSteps.Proofs.StackDiscipline
import MatrixSteps.Proofs.TransposedPowers
import MatrixSteps.Proofs.SelectionChecks
import MatrixSteps.Proofs.LexerLaws
import MatrixSteps.Proofs.FaultEscapes
import MatrixSteps.Proofs.FloatOrder
import MatrixSteps.Proofs.NearestDouble
import MatrixSteps.Proofs.CellRounding
import MatrixSteps.Proofs.TransposeLaws
import MatrixSteps.Proofs.IdentityProducts
import MatrixSteps.Proofs.ReadingInterval
import MatrixSteps.Proofs.ShortestDigits
import MatrixSteps.Proofs.NumeralText
import MatrixSteps.Proofs.NumberRendering
import MatrixSteps.Proofs.StepNarration
import MatrixSteps.Proofs.PostfixConservation
import MatrixSteps.Proofs.LimitRefinement
import MatrixSteps.Proofs.ContractRoundTrip
import MatrixSteps.Proofs.PayloadAcceptance
