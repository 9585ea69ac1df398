import FzDaq.Machine.Loop
import FzDaq.Machine.Scanner
import FzDaq.Machine.Segments
import FzDaq.Machine.Bits
import FzDaq.Machine.Bytes
import FzDaq.Machine.Decimal
import FzDaq.Machine.Filing
import FzDaq.Machine.Journal
import FzDaq.Machine.Mailbox
import FzDaq.Machine.Scatter
import FzDaq.Parser.Word
import FzDaq.Parser.Message
import FzDaq.Parser.State
import FzDaq.Parser.Transitions
import FzDaq.Parser.Process
import FzDaq.Parser.Chunk
import FzDaq.Parser.Gather
import FzDaq.Parser.Record
import FzDaq.Parser.Steps
import FzDaq.Parser.TriggerStamps
import FzDaq.Parser.Run
import FzDaq.Parser.Cursor
import FzDaq.Parser.Content
import FzDaq.Parser.Build
import FzDaq.Parser.Stage
import FzDaq.Parser.Sections
import FzDaq.Parser.Pretriggers
import FzDaq.Parser.Required
import FzDaq.Parser.Flags
import FzDaq.Parser.Counter
import FzDaq.Parser.Progress
import FzDaq.Parser.Reset
import FzDaq.Parser.Faults
import FzDaq.Parser.Termination
import FzDaq.Parser.Memory
import FzDaq.Parser.Agree
import FzDaq.Parser.DataAgree
import FzDaq.Parser.TagAgree
import FzDaq.Parser.Lockstep
import FzDaq.Parser.Independence
import FzDaq.Parser.Padding
import FzDaq.Parser.Accounting
import FzDaq.Parser.Walk
import FzDaq.Parser.Encoding
import FzDaq.Parser.Numbers
import FzDaq.Parser.SineCosine
import FzDaq.Parser.Lengths
import FzDaq.Parser.Checksums
import FzDaq.Parser.Grammar
import FzDaq.Parser.Shows
import FzDaq.Parser.Nesting
import FzDaq.Parser.Records
import FzDaq.Parser.TagBody
import FzDaq.Parser.BasicWords
import FzDaq.Parser.BasicBody
import FzDaq.Reader.UdpHandler
import FzDaq.Reader.SequenceNumber
import FzDaq.Reader.Oversized
import FzDaq.Reader.Loss
import FzDaq.RunControl.RCFSM
import FzDaq.RunControl.Message
import FzDaq.RunControl.Controller
import FzDaq.Writer.FzWriter
import FzDaq.Writer.Directories
import FzDaq.Writer.RunIds
import FzDaq.RunControl.NodeManager
import FzDaq.RunControl.Broadcast
import FzDaq.RunControl.Console
import FzDaq.RunControl.Exclusion
import FzDaq.RunControl.Remote
import FzDaq.RunControl.Cli
import FzDaq.RunControl.CommandLines
import FzDaq.Ecc.EccService
import FzDaq.Utils.FzProtobuf
import FzDaq.Transmitter.MfmFrame
import FzDaq.Writer.Rotation
import FzDaq.Writer.Limits
import FzDaq.Parser.Framing
import FzDaq.Parser.Samples
import FzDaq.Parser.Waveforms
import FzDaq.Parser.OpenWaveforms
import FzDaq.Parser.SoundWaveforms
import FzDaq.Machine.Sweep
import FzDaq.Machine.Pool
import FzDaq.Machine.Shelf
import FzDaq.Controller.NodeMap
import FzDaq.Controller.Bijection
import FzDaq.Controller.Expiry
import FzDaq.Logger.FzHttpPost
import FzDaq.Controller.Weblog
import FzDaq.Controller.Publishing
import FzDaq.Controller.Perfdata
import FzDaq.Controller.Monitoring
import FzDaq.Writer.Recovery
import FzDaq.Writer.Stored
import FzDaq.Writer.Archive
import FzDaq.Parser.Shape
import FzDaq.Machine.Guard
import FzDaq.Machine.Pace
import FzDaq.Parser.TagTermination
import FzDaq.Parser.Guards
import FzDaq.Parser.Fields
import FzDaq.Parser.SectionNames
import FzDaq.Parser.Names
import FzDaq.DataPath.Node
import FzDaq.DataPath.Conservation
import FzDaq.Reader.Wire
import FzDaq.DataPath.EndToEnd
import FzDaq.DataPath.Archived
import FzDaq.DataPath.Counters
import FzDaq.DataPath.Published
import FzDaq.DataPath.Progress
import FzDaq.Machine.Frames
import FzDaq.Transmitter.Tcp
import FzDaq.Transmitter.FdtTransmitter
