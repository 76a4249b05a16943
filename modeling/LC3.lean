import LC3.Arguments
import LC3.Assembly
import LC3.AssemblyError
import LC3.Breach
import LC3.Command
import LC3.Command.Disk
import LC3.Command.Options
import LC3.Command.Path
import LC3.Command.System
import LC3.Counter
import LC3.Diagnostic
import LC3.Directive
import LC3.Encoding
import LC3.Field
import LC3.Flags
import LC3.Format
import LC3.Image
import LC3.Image.Binary
import LC3.Image.HexText
import LC3.Keyword
import LC3.Line
import LC3.Location
import LC3.Log
import LC3.Main
import LC3.Mnemonic
import LC3.Node
import LC3.Problem
import LC3.Program
import LC3.Proofs.Accounting
import LC3.Proofs.Alike
import LC3.Proofs.Analysis
import LC3.Proofs.Backtracking
import LC3.Proofs.Binding
import LC3.Proofs.Blame
import LC3.Proofs.Blocks
import LC3.Proofs.BranchWords
import LC3.Proofs.Budgets
import LC3.Proofs.Carets
import LC3.Proofs.Checkpoints
import LC3.Proofs.Clients
import LC3.Proofs.Contract
import LC3.Proofs.Decoding
import LC3.Proofs.Distance
import LC3.Proofs.DistinctWords
import LC3.Proofs.Document
import LC3.Proofs.Echoes
import LC3.Proofs.Encoded
import LC3.Proofs.Escapes
import LC3.Proofs.Extent
import LC3.Proofs.Faults
import LC3.Proofs.Following
import LC3.Proofs.Formats
import LC3.Proofs.Grammar
import LC3.Proofs.ImageFormats
import LC3.Proofs.ImageText
import LC3.Proofs.Joining
import LC3.Proofs.KeywordCase
import LC3.Proofs.LabelNames
import LC3.Proofs.Layout
import LC3.Proofs.LetterCase
import LC3.Proofs.LineExtent
import LC3.Proofs.LineGrammar
import LC3.Proofs.Listing
import LC3.Proofs.Literals
import LC3.Proofs.Loader
import LC3.Proofs.Loading
import LC3.Proofs.Lockstep
import LC3.Proofs.Lowered
import LC3.Proofs.Matching
import LC3.Proofs.Misfits
import LC3.Proofs.Naming
import LC3.Proofs.NodeTokens
import LC3.Proofs.NumberReading
import LC3.Proofs.Numerals
import LC3.Proofs.Operands
import LC3.Proofs.Origins
import LC3.Proofs.Packing
import LC3.Proofs.Places
import LC3.Proofs.Pointing
import LC3.Proofs.Reading
import LC3.Proofs.RecordedFormats
import LC3.Proofs.Recording
import LC3.Proofs.References
import LC3.Proofs.RegionLabels
import LC3.Proofs.RegionSequence
import LC3.Proofs.Relocation
import LC3.Proofs.Repetition
import LC3.Proofs.Respelling
import LC3.Proofs.Rewriting
import LC3.Proofs.Runs
import LC3.Proofs.Scanning
import LC3.Proofs.Settled
import LC3.Proofs.Slots
import LC3.Proofs.SourceLines
import LC3.Proofs.Spans
import LC3.Proofs.Spelling
import LC3.Proofs.Stages
import LC3.Proofs.StringSource
import LC3.Proofs.StringWords
import LC3.Proofs.Termination
import LC3.Proofs.TokenLines
import LC3.Proofs.TreeRuns
import LC3.Proofs.TreeShape
import LC3.Proofs.TreeTokens
import LC3.Proofs.WellLabelled
import LC3.Proofs.WordOperands
import LC3.Proofs.Writing
import LC3.Proofs.WrittenNumbers
import LC3.Region
import LC3.Register
import LC3.Rule
import LC3.Rule.Context
import LC3.Rule.Run
import LC3.Stage
import LC3.SymbolTable
import LC3.SyntaxError
import LC3.Text.Blank
import LC3.Text.Bytes
import LC3.Text.Escape
import LC3.Text.Latin1
import LC3.Text.Numeral
import LC3.Text.Quoted
import LC3.Text.Split
import LC3.Text.Terminal
import LC3.Text.Unprintable
import LC3.Token
import LC3.Token.Buffer
import LC3.Token.Lexer
import LC3.Word
