import RegisterMachine.Binary64.Basic
import RegisterMachine.Binary64.Integer
import RegisterMachine.Binary64.Round
import RegisterMachine.CommandLine.Arguments
import RegisterMachine.CommandLine.Progress
import RegisterMachine.CommandLine.Report
import RegisterMachine.Debugger.Basic
import RegisterMachine.Debugger.Keys
import RegisterMachine.Debugger.Screen
import RegisterMachine.Decimal.Basic
import RegisterMachine.Decimal.Notation
import RegisterMachine.Decimal.Shortest
import RegisterMachine.Instruction
import RegisterMachine.Json.Basic
import RegisterMachine.Json.Number
import RegisterMachine.Json.Reader
import RegisterMachine.Json.Skip
import RegisterMachine.Json.Typed
import RegisterMachine.Json.Value
import RegisterMachine.Machine.Basic
import RegisterMachine.Machine.Json
import RegisterMachine.Machine.Operation
import RegisterMachine.Main
import RegisterMachine.Numeral
import RegisterMachine.Opcode
import RegisterMachine.Program.Basic
import RegisterMachine.Program.Json
import RegisterMachine.Program.Parser
import RegisterMachine.Registers.Basic
import RegisterMachine.Registers.Json
import RegisterMachine.Screen.Panel
import RegisterMachine.Session
import RegisterMachine.Settings.Basic
import RegisterMachine.Settings.Json
import RegisterMachine.Status
import RegisterMachine.Text.Blank
import RegisterMachine.Text.Digits
import RegisterMachine.Text.Outline
import RegisterMachine.Text.Pad
import RegisterMachine.Text.Split
import RegisterMachine.Ticker
import RegisterMachine.Proofs.Latest
import RegisterMachine.Proofs.Binary64.Value
import RegisterMachine.Proofs.Machine.Rules
import RegisterMachine.Proofs.Binary64.Nearest
import RegisterMachine.Proofs.Decimal.Reading
import RegisterMachine.Proofs.Program.Lines
import RegisterMachine.Proofs.Decimal.Text
import RegisterMachine.Proofs.Decimal.Whole
import RegisterMachine.Proofs.Text.Narrow
import RegisterMachine.Proofs.Program.Reparse
import RegisterMachine.Proofs.Machine.History
import RegisterMachine.Proofs.Machine.Stuck
import RegisterMachine.Proofs.CommandLine.Driving
import RegisterMachine.Proofs.Debugger.Pace
import RegisterMachine.Proofs.Debugger.Keys
import RegisterMachine.Proofs.Session.Schedule
import RegisterMachine.Proofs.Binary64.Arithmetic
import RegisterMachine.Proofs.Decimal.Seventeen
import RegisterMachine.Proofs.Json.Grammar
import RegisterMachine.Proofs.Json.NumberText
import RegisterMachine.Proofs.Json.Reading
import RegisterMachine.Proofs.Json.Unambiguous
import RegisterMachine.Proofs.Json.Library
import RegisterMachine.Proofs.Json.Written
import RegisterMachine.Proofs.Json.Understood
import RegisterMachine.Proofs.Json.Scaling
import RegisterMachine.Proofs.Json.RealNumber
import RegisterMachine.Proofs.Json.Number
import RegisterMachine.Proofs.Program.Settled
import RegisterMachine.Proofs.Machine.Likeness
import RegisterMachine.Proofs.Program.ReadBack
import RegisterMachine.Proofs.Machine.Direct
import RegisterMachine.Proofs.Machine.Counter
import RegisterMachine.Proofs.Machine.Reset
import RegisterMachine.Proofs.CommandLine.BadLine
import RegisterMachine.Proofs.CommandLine.Arguments
import RegisterMachine.Proofs.Binary64.NearestEven
import RegisterMachine.Proofs.Numeral.Grammar
import RegisterMachine.Proofs.Numeral.Filters
import RegisterMachine.Proofs.Numeral.Rounding
import RegisterMachine.Proofs.Binary64.Word
import RegisterMachine.Proofs.Machine.Literal
import RegisterMachine.Proofs.Program.Joined
import RegisterMachine.Proofs.Machine.Pieces
import RegisterMachine.Proofs.Machine.Forward
import RegisterMachine.Proofs.Program.Layout
import RegisterMachine.Proofs.Machine.Block
import RegisterMachine.Proofs.Machine.Summation
import RegisterMachine.Proofs.Binary64.Comparison
import RegisterMachine.Proofs.Program.Listing
import RegisterMachine.Proofs.Debugger.Window
import RegisterMachine.Proofs.Screen.Region
import RegisterMachine.Proofs.Screen.Painter
import RegisterMachine.Proofs.Debugger.Screen
import RegisterMachine.Proofs.Registers.ReadBack
import RegisterMachine.Proofs.Settings.ReadBack
import RegisterMachine.Proofs.Registers.Store
import RegisterMachine.Proofs.Decimal.Fewest
import RegisterMachine.Proofs.Decimal.Fifteen
import RegisterMachine.Proofs.Decimal.Operand
