import HackToolchain.Main
import HackToolchain.VM.Cursor
import HackToolchain.Proofs.Cli.Artifacts
import HackToolchain.Proofs.Machine.Mnemonics
import HackToolchain.Proofs.Machine.Transition
import HackToolchain.Proofs.VM.CallDiscipline
import HackToolchain.Proofs.VM.Comments
import HackToolchain.Proofs.VM.Literals
import HackToolchain.Proofs.VM.LabelNames
import HackToolchain.Proofs.VM.StaticVariables
import HackToolchain.Proofs.Machine.Reachable
import HackToolchain.Proofs.Machine.MemorySize
import HackToolchain.Proofs.Machine.AddressWidth
import HackToolchain.Proofs.Machine.ScheduledWrites
import HackToolchain.Proofs.Asm.Disassembly
import HackToolchain.Proofs.Asm.BinaryImage
import HackToolchain.Proofs.Asm.Renaming
import HackToolchain.Proofs.VM.Comparisons
import HackToolchain.Proofs.VM.ErrorLocation
import HackToolchain.Proofs.VM.Grammar
import HackToolchain.Proofs.Cli.Building
import HackToolchain.Proofs.Cli.Footprint
import HackToolchain.Proofs.Cli.Outputs
import HackToolchain.Proofs.Cli.Record
import HackToolchain.Proofs.Cli.RoundTrip
import HackToolchain.Proofs.Cli.ReadOnly
import HackToolchain.Proofs.Asm.ErrorLocation
import HackToolchain.Proofs.Machine.TickLimit
import HackToolchain.Proofs.Machine.Reordering
import HackToolchain.Proofs.Cli.Tracing
import HackToolchain.Proofs.Machine.ScheduleFiles
import HackToolchain.Proofs.Machine.Reporting
import HackToolchain.Proofs.VM.Layout
