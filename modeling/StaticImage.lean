import StaticImage.Main
import StaticImage.Proofs.Table.FiniteMap
import StaticImage.Proofs.Image.PrintedMap
import StaticImage.Proofs.Image.Calls
import StaticImage.Proofs.Image.Legible
import StaticImage.Proofs.Image.Forms
import StaticImage.Proofs.Image.Writing
import StaticImage.Proofs.Image.WritingValues
import StaticImage.Proofs.Image.WritingDeclarations
import StaticImage.Proofs.Image.Globals
import StaticImage.Proofs.Image.Leaving
import StaticImage.Proofs.Image.Underway
import StaticImage.Proofs.Image.Sink
import StaticImage.Proofs.Image.Respelling
import StaticImage.Proofs.Image.ClassNames
import StaticImage.Proofs.Image.Introducing
import StaticImage.Proofs.Image.IntroducingDeclarations
import StaticImage.Proofs.Image.Definitions
import StaticImage.Proofs.Image.Routes
import StaticImage.Proofs.Snapshot.Form
import StaticImage.Proofs.Snapshot.Scalars
import StaticImage.Proofs.Heap.Allocation
import StaticImage.Proofs.Snapshot.Meaning
import StaticImage.Proofs.Snapshot.Evaluation
import StaticImage.Proofs.Snapshot.Fields
import StaticImage.Proofs.Snapshot.Describing
import StaticImage.Proofs.Snapshot.Declaring
import StaticImage.Proofs.Snapshot.Lowering
import StaticImage.Proofs.Snapshot.Graph
import StaticImage.Proofs.Table.Counting
import StaticImage.Proofs.Heap.Parts
import StaticImage.Proofs.Table.Likeness
import StaticImage.Proofs.Image.Agreement
import StaticImage.Proofs.Image.Correspondence
import StaticImage.Proofs.Image.CorrespondingDeclarations
import StaticImage.Proofs.Snapshot.Twins
import StaticImage.Proofs.Snapshot.Pairing
import StaticImage.Proofs.Snapshot.Agreeing
import StaticImage.Proofs.Snapshot.Order
import StaticImage.Proofs.Parsing.Yielding
import StaticImage.Proofs.Parsing.Giving
import StaticImage.Proofs.Parsing.Taking
import StaticImage.Proofs.Snapshot.Grammar
import StaticImage.Proofs.Snapshot.Derivations
import StaticImage.Proofs.Snapshot.Accepting
import StaticImage.Proofs.Snapshot.Reals
import StaticImage.Proofs.Snapshot.Widening
import StaticImage.Proofs.Image.LegibleValues
import StaticImage.Proofs.Snapshot.Fillers
import StaticImage.Proofs.Snapshot.Lexemes
import StaticImage.Proofs.Snapshot.Printing
import StaticImage.Proofs.Snapshot.Lexing
import StaticImage.Proofs.Image.Encoding
import StaticImage.Proofs.Image.Accounting
import StaticImage.Proofs.Image.AccountingDeclarations
import StaticImage.Proofs.Image.FunctionText
import StaticImage.Proofs.Image.MemberWalks
import StaticImage.Proofs.Image.ClosureSymbols
import StaticImage.Proofs.Text.OrdinaryNames
import StaticImage.Proofs.Image.Borrowing
import StaticImage.Proofs.Image.Ownership
import StaticImage.Proofs.Text.Encodings
import StaticImage.Proofs.Table.Searching
import StaticImage.Proofs.Table.Coherence
import StaticImage.Proofs.Image.Hoisting
import StaticImage.Proofs.Table.Compaction
import StaticImage.Proofs.Parsing.Advancing
import StaticImage.Proofs.Parsing.Spans
import StaticImage.Proofs.Snapshot.TokenSpans
import StaticImage.Proofs.Snapshot.Nesting
import StaticImage.Proofs.Snapshot.Steadiness
import StaticImage.Proofs.Snapshot.Reporting
import StaticImage.Proofs.Table.LastWriting
import StaticImage.Proofs.Snapshot.Content
import StaticImage.Proofs.Snapshot.Visits
import StaticImage.Proofs.Snapshot.Building
import StaticImage.Proofs.Table.Crowding
import StaticImage.Proofs.Snapshot.Literals
import StaticImage.Proofs.Code.Fields
import StaticImage.Proofs.Code.Disassembly
import StaticImage.Proofs.Snapshot.Constants
import StaticImage.Proofs.Snapshot.Magnitudes
import StaticImage.Proofs.Snapshot.Integers
import StaticImage.Proofs.Snapshot.ByteLiterals
import StaticImage.Proofs.Table.LinkLimits
import StaticImage.Proofs.Snapshot.Capturing
import StaticImage.Proofs.Image.Buffering
import StaticImage.Proofs.Storage.Writing
import StaticImage.Proofs.Command.Words
import StaticImage.Proofs.Command.Output
