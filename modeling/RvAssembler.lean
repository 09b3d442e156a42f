import RvAssembler.Bookkeeping
import RvAssembler.Built
import RvAssembler.CAluEncoding
import RvAssembler.CDecode
import RvAssembler.CEncoding
import RvAssembler.CFields
import RvAssembler.CJumpEncoding
import RvAssembler.CLegal
import RvAssembler.CMemEncoding
import RvAssembler.CRules
import RvAssembler.ControlFlow
import RvAssembler.CrossSection
import RvAssembler.Decode
import RvAssembler.Elf
import RvAssembler.ElfCarries
import RvAssembler.ElfLayout
import RvAssembler.ElfRead
import RvAssembler.Emission
import RvAssembler.Encoding
import RvAssembler.EncodingExact
import RvAssembler.Expansion
import RvAssembler.Formats
import RvAssembler.Grammar
import RvAssembler.Ir
import RvAssembler.Isa
import RvAssembler.Labels
import RvAssembler.Layout
import RvAssembler.Lib.Bits
import RvAssembler.Lib.Bytes
import RvAssembler.Lib.Chains
import RvAssembler.Lib.Image
import RvAssembler.Lib.Relax
import RvAssembler.Lib.Units
import RvAssembler.LoadAddress
import RvAssembler.Main
import RvAssembler.Out
import RvAssembler.OutOps
import RvAssembler.Pass
import RvAssembler.Pass1
import RvAssembler.Pass2
import RvAssembler.Recorded
import RvAssembler.Relayout
import RvAssembler.Segments
import RvAssembler.SettledLayout
import RvAssembler.Stream
import RvAssembler.Symtab
import RvAssembler.SymtabMap
import RvAssembler.TwoPasses
import RvAssembler.ExactCounters
import RvAssembler.FirstFault
import RvAssembler.PrimeSizes
import RvAssembler.DataImage
import RvAssembler.EntryPoint
import RvAssembler.Lexer
import RvAssembler.Literals
import RvAssembler.FrontEnd
import RvAssembler.Lexing
import RvAssembler.Lib.Lexemes
import RvAssembler.Parsing
import RvAssembler.Syntax
import RvAssembler.TokenText
import RvAssembler.Tokens
import RvAssembler.Executes
import RvAssembler.Execution
import RvAssembler.Hart
import RvAssembler.Lib.Memory
import RvAssembler.Lib.Runs
import RvAssembler.Loading
import RvAssembler.Meaning
import RvAssembler.Driver
import RvAssembler.EndToEnd
import RvAssembler.OpenOutput
import RvAssembler.Reports
import RvAssembler.Settings
