import RiscvSoc.Isa.Encoding
import RiscvSoc.Main
import RiscvSoc.Proofs.Bus.Ownership
import RiscvSoc.Proofs.Bus.Peripherals
import RiscvSoc.Proofs.Bus.Scan
import RiscvSoc.Proofs.Clock.DelayLine
import RiscvSoc.Proofs.Clock.Edges
import RiscvSoc.Proofs.CommandLine.Numbers
import RiscvSoc.Proofs.Config.Layout
import RiscvSoc.Proofs.Config.RoundTrip
import RiscvSoc.Proofs.Core.Commit
import RiscvSoc.Proofs.Core.Conformance
import RiscvSoc.Proofs.Core.CsrFile
import RiscvSoc.Proofs.Core.Handler
import RiscvSoc.Proofs.Core.Invariants
import RiscvSoc.Proofs.Core.LegalCsrs
import RiscvSoc.Proofs.Core.NoOperation
import RiscvSoc.Proofs.Core.Readback
import RiscvSoc.Proofs.Core.TrapPriority
import RiscvSoc.Proofs.Core.Wires
import RiscvSoc.Proofs.Device.PendingTimer
import RiscvSoc.Proofs.Device.Picture
import RiscvSoc.Proofs.Device.Raster
import RiscvSoc.Proofs.Device.Reception
import RiscvSoc.Proofs.Device.ScannedFrame
import RiscvSoc.Proofs.Device.Scanout
import RiscvSoc.Proofs.Device.Upload
import RiscvSoc.Proofs.Device.VerticalBlank
import RiscvSoc.Proofs.Image.FlatImage
import RiscvSoc.Proofs.Image.Segments
import RiscvSoc.Proofs.Interrupt.ExternalLine
import RiscvSoc.Proofs.Interrupt.LineHistory
import RiscvSoc.Proofs.Interrupt.TimerLine
import RiscvSoc.Proofs.Isa.Assembly
import RiscvSoc.Proofs.Isa.Base
import RiscvSoc.Proofs.Isa.Formats
import RiscvSoc.Proofs.Isa.Integer
import RiscvSoc.Proofs.Isa.Undefined
import RiscvSoc.Proofs.Json.Reader
import RiscvSoc.Proofs.Json.Writer
import RiscvSoc.Proofs.Machine.Cycles
import RiscvSoc.Proofs.Machine.Deliveries
import RiscvSoc.Proofs.Machine.FirstEdge
import RiscvSoc.Proofs.Machine.Frames
import RiscvSoc.Proofs.Machine.MemoryViews
import RiscvSoc.Proofs.Machine.Pace
import RiscvSoc.Proofs.Machine.PixelIsolation
import RiscvSoc.Proofs.Machine.Playback
import RiscvSoc.Proofs.Machine.PreciseTraps
import RiscvSoc.Proofs.Machine.SettledWires
import RiscvSoc.Proofs.Machine.Stopping
import RiscvSoc.Proofs.Machine.Tally
import RiscvSoc.Proofs.Machine.TimerLatency
import RiscvSoc.Proofs.Machine.Transmissions
import RiscvSoc.Proofs.Memory.Flat
import RiscvSoc.Proofs.Memory.Lanes
import RiscvSoc.Proofs.Memory.Loading
import RiscvSoc.Proofs.Signature.Coverage
import RiscvSoc.Proofs.Signature.Lines
import RiscvSoc.Proofs.Soc.CommittedEdge
import RiscvSoc.Proofs.Soc.Cycle
import RiscvSoc.Proofs.Soc.Stores
import RiscvSoc.Proofs.Text.Hex
import RiscvSoc.Proofs.Waveform.Identifier
import RiscvSoc.Proofs.Waveform.Pieces
import RiscvSoc.Proofs.Waveform.Reader
import RiscvSoc.Proofs.Waveform.RoundTrip
