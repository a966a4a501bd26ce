import Handheld.Proofs.Console.Display
import Handheld.Proofs.Console.FailedStep
import Handheld.Proofs.Cpu.Halt
import Handheld.Main
import Handheld.Memory.Flat
import Handheld.Proofs.Console.Frames
import Handheld.Proofs.Runner.Session
import Handheld.Proofs.Console.Overlay
import Handheld.Proofs.Console.WordWrite
import Handheld.Proofs.Board.Cartridge
import Handheld.Proofs.Console.Program
import Handheld.Proofs.Board.Reset
import Handheld.Proofs.Console.Reset
import Handheld.Proofs.Cpu.Entry
import Handheld.Proofs.Cpu.Transport
import Handheld.Proofs.Cpu.Journal
import Handheld.Proofs.Board.Requests
import Handheld.Proofs.Console.Interrupts
import Handheld.Proofs.Cartridge.Registers
import Handheld.Proofs.Cpu.Account
import Handheld.Proofs.Console.Divider
import Handheld.Proofs.Console.ExternalRam
import Handheld.Proofs.Board.Cells
import Handheld.Proofs.Console.Cells
import Handheld.Proofs.Cpu.Return
import Handheld.Proofs.Cpu.Effect
import Handheld.Proofs.Cpu.Instruction
import Handheld.Proofs.Console.Entries
import Handheld.Proofs.Board.Checked
import Handheld.Proofs.Console.Checked
import Handheld.Proofs.Console.Transfer
import Handheld.Proofs.Board.Transfer
import Handheld.Proofs.Timer.Counter
import Handheld.Proofs.Cpu.Parts
import Handheld.Proofs.Cpu.Footprint
import Handheld.Proofs.Cpu.Course
import Handheld.Proofs.Console.Portions
import Handheld.Proofs.Console.Idling
import Handheld.Proofs.Cpu.Binary
import Handheld.Proofs.Cpu.Decimal
import Handheld.Proofs.Cpu.WordSums
import Handheld.Proofs.Cpu.Decoded
import Handheld.Proofs.Cpu.OperandForms
import Handheld.Proofs.Cpu.FailedStack
import Handheld.Proofs.Cpu.Nesting
import Handheld.Proofs.Memory.Words
import Handheld.Proofs.Console.DryRun
import Handheld.Proofs.Joypad
import Handheld.Proofs.Board.Registers
import Handheld.Proofs.Console.Registers
import Handheld.Proofs.Console.Joypad
