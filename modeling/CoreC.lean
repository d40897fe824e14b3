import CoreC.Json.Basic
import CoreC.Json.Token
import CoreC.Json.Printer
import CoreC.Json.Reader
import CoreC.Name
import CoreC.Ty
import CoreC.Expr
import CoreC.Program
import CoreC.TypeError
import CoreC.Interchange.Shape
import CoreC.Interchange.Decode
import CoreC.Interchange.Encode
import CoreC.Dump
import CoreC.Log
import CoreC.Check
import CoreC.Scope
import CoreC.Globals
import CoreC.Typing.Expr
import CoreC.Typing.Stmt
import CoreC.Typing.Program
import CoreC.Failure
import CoreC.Source
import CoreC.Terminal
import CoreC.CommandLine.Request
import CoreC.CommandLine.Report
import CoreC.Main
import CoreC.Proofs.Syntax.Nodes
import CoreC.Proofs.Syntax.Contexts
import CoreC.Proofs.Syntax.Dumps
import CoreC.Proofs.Typing.Results
import CoreC.Proofs.Typing.Rules
import CoreC.Proofs.Tables
import CoreC.Proofs.Typing.Adequacy
import CoreC.Proofs.Tables.Building
import CoreC.Proofs.Typing.WellTyped
import CoreC.Proofs.Typing.Scopes
import CoreC.Proofs.Typing.Histories
import CoreC.Proofs.Typing.Faults
import CoreC.Proofs.Typing.Sequences
import CoreC.Proofs.Typing.Sites
import CoreC.Proofs.Typing.Trace
import CoreC.Proofs.Flow.Paths
import CoreC.Proofs.Flow.Returns
import CoreC.Proofs.Flow.DeadCode
import CoreC.Proofs.Flow.Loops
import CoreC.Proofs.Flow.ReturnTypes
import CoreC.Proofs.Typing.Blame
import CoreC.Proofs.Typing.Void
import CoreC.Proofs.Typing.Compositional
import CoreC.Proofs.Typing.Substitution
import CoreC.Proofs.Runs.Renaming
import CoreC.Proofs.Runs.Follows
import CoreC.Proofs.Runs.Extension
import CoreC.Proofs.Runs.Irrelevance
import CoreC.Proofs.Runs.DeclarationOrder
import CoreC.Proofs.Runs.Namespaces
import CoreC.Proofs.Json.Grammar
import CoreC.Proofs.Json.Scanner
import CoreC.Proofs.Json.Lexer
import CoreC.Proofs.Json.Machine
import CoreC.Proofs.Json.Document
import CoreC.Proofs.Json.Printing
import CoreC.Proofs.Interchange.Format
import CoreC.Proofs.Interchange.Shapes
import CoreC.Proofs.Interchange.Records
import CoreC.Proofs.Interchange.Decoding
import CoreC.Proofs.Interchange.RoundTrip
import CoreC.Proofs.Interchange.Trailing
import CoreC.Proofs.Names
import CoreC.Proofs.Tables.Listing
import CoreC.Proofs.Typing.Display
import CoreC.Proofs.Typing.Recording
