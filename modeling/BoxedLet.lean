import BoxedLet.Assignment
import BoxedLet.Boxing
import BoxedLet.Capacity
import BoxedLet.Code
import BoxedLet.CommandLine
import BoxedLet.CompilationUnit
import BoxedLet.Context
import BoxedLet.Decimal.Binary64
import BoxedLet.Decimal.Shortest
import BoxedLet.Document.Expr
import BoxedLet.Document.Names
import BoxedLet.Document.Unit
import BoxedLet.Expr
import BoxedLet.Header
import BoxedLet.Instr
import BoxedLet.Json.Decoder
import BoxedLet.Json.Fault
import BoxedLet.Json.Lexeme
import BoxedLet.Json.Skip
import BoxedLet.Json.Value
import BoxedLet.Listing
import BoxedLet.LowerError
import BoxedLet.Lowering.Part
import BoxedLet.Lowering.Resolve
import BoxedLet.Lowering.Statement
import BoxedLet.Lowering.Whole
import BoxedLet.Main
import BoxedLet.Options
import BoxedLet.OrderedSet
import BoxedLet.Source
import BoxedLet.Span
import BoxedLet.StaticType
import BoxedLet.Strategy
import BoxedLet.Symbol
import BoxedLet.Text.Escape
import BoxedLet.Text.Uppercase
import BoxedLet.Proofs.Fresh
import BoxedLet.Proofs.NameSupply
import BoxedLet.Proofs.Typing
import BoxedLet.Proofs.Growth
import BoxedLet.Proofs.Resolve
import BoxedLet.Proofs.Ending
import BoxedLet.Proofs.Course
import BoxedLet.Proofs.Atomic
import BoxedLet.Proofs.Meaning
import BoxedLet.Proofs.Simulation
import BoxedLet.Proofs.Agree
import BoxedLet.Proofs.Hazard
import BoxedLet.Proofs.Lexical
import BoxedLet.Proofs.LineText
import BoxedLet.Proofs.Primitives
import BoxedLet.Proofs.WriteOnce
import BoxedLet.Proofs.Operands
import BoxedLet.Proofs.Runs
import BoxedLet.Proofs.StatementShape
import BoxedLet.Proofs.Bookkeeping
import BoxedLet.Proofs.BookedLines
import BoxedLet.Proofs.Judgement
import BoxedLet.Proofs.Acceptance
import BoxedLet.Proofs.Matching
import BoxedLet.Proofs.Failures
import BoxedLet.Proofs.Declarations
import BoxedLet.Proofs.Scope
import BoxedLet.Proofs.Families
import BoxedLet.Proofs.HeaderUse
import BoxedLet.Proofs.Extension
import BoxedLet.Proofs.EmittedNames
import BoxedLet.Proofs.Allocation
import BoxedLet.Proofs.Emission
import BoxedLet.Proofs.Limits
import BoxedLet.Proofs.LiteralValue
import BoxedLet.Proofs.QuotedStrings
import BoxedLet.Proofs.SourceStrings
import BoxedLet.Proofs.EffectiveType
import BoxedLet.Proofs.CSyntax
import BoxedLet.Proofs.InlineExpressions
import BoxedLet.Proofs.JsonText
import BoxedLet.Proofs.JsonReading
import BoxedLet.Proofs.RecordFormat
import BoxedLet.Proofs.DocumentFormat
import BoxedLet.Proofs.ExprDocument
import BoxedLet.Proofs.UnitDocument
import BoxedLet.Proofs.DocumentWriting
import BoxedLet.Proofs.DocumentRoundTrip
import BoxedLet.Proofs.Faults
import BoxedLet.Proofs.AssignmentFaults
import BoxedLet.Proofs.Diagnosis
import BoxedLet.Proofs.Coverage
import BoxedLet.Proofs.BoxingPaths
import BoxedLet.Proofs.Invocation
