import Mips.Text.Blank
import Mips.Text.Case
import Mips.Text.Split
import Mips.Text.Numeral
import Mips.Text.Hex
import Mips.Word.Layout
import Mips.Word.Bytes
import Mips.Register.Name
import Mips.Register.File
import Mips.Instruction.Definition
import Mips.Instruction.Set
import Mips.Instruction.SetText
import Mips.Instruction.Standard
import Mips.Source.Diagnostic
import Mips.Source.Statement
import Mips.Source.Symbols
import Mips.Operation.Resolve
import Mips.Operation.Encoding
import Mips.Program.Basic
import Mips.Program.Assemble
import Mips.Program.Disassembly
import Mips.Program.Listing
import Mips.Json.Document
import Mips.Json.Encode
import Mips.Command.Settings
import Mips.Command.Steps
import Mips.Command.List
import Mips.Main
import Mips.Proofs.FirstOfEach
import Mips.Proofs.Register.Histories
import Mips.Proofs.Text.Tokens
import Mips.Proofs.Text.Numerals
import Mips.Proofs.Text.NumeralGrammar
import Mips.Proofs.Text.Trimming
import Mips.Proofs.Text.NumeralReading
import Mips.Proofs.Register.Names
import Mips.Proofs.Register.Store
import Mips.Proofs.Text.Lines
import Mips.Proofs.Source.Declarations
import Mips.Proofs.Source.Histories
import Mips.Proofs.Source.Spelling
import Mips.Proofs.Source.Grammar
import Mips.Proofs.Operation.Reading
import Mips.Proofs.Operation.Faults
import Mips.Proofs.Program.Passes
import Mips.Proofs.Program.Placement
import Mips.Proofs.Program.Reporting
import Mips.Proofs.Program.Concatenation
import Mips.Proofs.Instruction.Lookup
import Mips.Proofs.Instruction.Reading
import Mips.Proofs.Instruction.Grammar
import Mips.Proofs.Instruction.RoundTrip
import Mips.Proofs.Instruction.Histories
import Mips.Proofs.Operation.Writing
import Mips.Proofs.Instruction.Decoding
import Mips.Proofs.Instruction.Canonical
import Mips.Proofs.Program.Reassembly
import Mips.Proofs.Operation.Packing
import Mips.Proofs.Program.Targets
import Mips.Proofs.Program.Rebase
import Mips.Proofs.Program.Reordering
import Mips.Proofs.Program.Spelling
import Mips.Proofs.Json.Grammar
import Mips.Proofs.Json.Reading
import Mips.Proofs.Json.Printing
import Mips.Proofs.Json.Encode
import Mips.Proofs.Command.Files
import Mips.Proofs.Command.Steps
import Mips.Proofs.Command.Settings
import Mips.Proofs.Command.Loading
import Mips.Proofs.Command.LineEnds
import Mips.Proofs.Command.Atomicity
import Mips.Proofs.Command.ListingText
import Mips.Proofs.Command.Agreement
import Mips.Proofs.Register.Resolution
