import SheepShear.Lib.Bytes
import SheepShear.Lib.CString
import SheepShear.Lib.Except
import SheepShear.Lib.IntrusiveList
import SheepShear.Lib.Ring
import SheepShear.Lib.Steps
import SheepShear.Lib.Words
import SheepShear.Kpx.Registers
import SheepShear.Kpx.Interp
import SheepShear.Kpx.Dyngen
import SheepShear.Kpx.IntegerSpec
import SheepShear.Kpx.Flags
import SheepShear.Kpx.Integer
import SheepShear.Kpx.Translate
import SheepShear.Kpx.BlockCache
import SheepShear.Prefs.Items
import SheepShear.Prefs.RoundTrip
import SheepShear.Rpc.Message
import SheepShear.Rpc.RoundTrip
import SheepShear.Kpx.BlockCacheInv
import SheepShear.Adb.Keyboard
import SheepShear.Lib.Memory
import SheepShear.Scsi.Manager
import SheepShear.Scsi.Table
import SheepShear.Scsi.Transfers
import SheepShear.Scsi.Consistency
import SheepShear.Ether.Dlpi
import SheepShear.Ether.Receive
import SheepShear.Ether.Bindings
import SheepShear.Rpc.Dispatch
import SheepShear.Rpc.Framing
import SheepShear.Glue.Machine
import SheepShear.Glue.Calls
import SheepShear.Glue.Frame
import SheepShear.Glue.Runs
import SheepShear.Glue.Interrupts
import SheepShear.Video.Vosf
import SheepShear.Video.VosfUpdates
import SheepShear.ExtFs.Catalog
import SheepShear.ExtFs.Cnids
import SheepShear.ExtFs.Attached
import SheepShear.Audio.Component
import SheepShear.Audio.LifeCycle
import SheepShear.Kpx.FlushRange
import SheepShear.Ether.WindowsQueue
import SheepShear.Ether.WindowsQueueRuns
import SheepShear.Cd.Cache
import SheepShear.Cd.Reads
import SheepShear.Router.SocketRuns
import SheepShear.Router.Ftp
import SheepShear.Router.Tcp.Conn
import SheepShear.Router.Tcp.Events
import SheepShear.Router.Tcp.Reactions
import SheepShear.Router.Tcp.Isolation
import SheepShear.Router.Tcp.States
import SheepShear.Router.Tcp.Listeners
import SheepShear.Kpx.Cpu
import SheepShear.Kpx.Fpscr
import SheepShear.Kpx.Branch
import SheepShear.Kpx.LoadStore
import SheepShear.Kpx.LoadStoreAgrees
import SheepShear.Lib.Xmm
import SheepShear.Kpx.AltiVec
import SheepShear.Kpx.Sse
import SheepShear.Kpx.SseCorrect
import SheepShear.Kpx.VectorOperand
import SheepShear.Kpx.VectorMove
import SheepShear.Kpx.VectorLoop
import SheepShear.Kpx.VectorMoveCorrect
import SheepShear.Kpx.VectorMoveOverlap
import SheepShear.Lib.SinglyLinked
import SheepShear.Prefs.NodeList
import SheepShear.Prefs.NodeListCorrect
import SheepShear.Prefs.CommandLine
import SheepShear.Prefs.LoadLines
import SheepShear.Kpx.Timebase
import SheepShear.Timer.HostTime
import SheepShear.Timer.TimeManager
import SheepShear.Timer.Descriptors
import SheepShear.Timer.Continue
import SheepShear.Lib.Window
import SheepShear.Rom.Lzss
import SheepShear.Rom.Decode
import SheepShear.Rom.LzssCorrect
import SheepShear.Rom.DecodeBounds
import SheepShear.Kpx.StringTransfer
import SheepShear.Kpx.SingleConvert
import SheepShear.Kpx.Decoder
import SheepShear.Kpx.DecodeCache
import SheepShear.Kpx.DecodeArena
import SheepShear.Adb.Mouse
import SheepShear.Cd.Bincue
import SheepShear.Cd.CueSheet
import SheepShear.Cd.Play
import SheepShear.Cd.PlayCorrect
import SheepShear.ExtFs.Paths
import SheepShear.ExtFs.Walks
import SheepShear.ExtFs.WalksSafe
import SheepShear.ExtFs.CatInfo
import SheepShear.ExtFs.HelperFiles
import SheepShear.Lib.ByteRuns
import SheepShear.Video.Accel
import SheepShear.Video.AccelRect
import SheepShear.Video.AccelBlit
import SheepShear.Timer.Interrupt
import SheepShear.Timer.InterruptRuns
import SheepShear.Lib.Calendar
import SheepShear.Timer.MacTime
import SheepShear.Cd.ReadToc
import SheepShear.Ether.Multicast
import SheepShear.Ether.MulticastRuns
import SheepShear.Ether.Transmit
import SheepShear.Ether.RequestBounds
import SheepShear.Ether.RoundTrip
import SheepShear.Video.DirtyArea
import SheepShear.Lib.X86Operand
import SheepShear.Sigsegv.SkipInstruction
import SheepShear.Jit.Codegen
import SheepShear.Sigsegv.SkipExact
import SheepShear.Jit.CodegenFaithful
import SheepShear.Ether.Echo
import SheepShear.Lib.OnesComplement
import SheepShear.Router.Checksum
import SheepShear.Router.ChecksumExact
import SheepShear.Router.FtpExact
import SheepShear.Video.Palette
import SheepShear.Video.PaletteRoundTrip
import SheepShear.Video.GammaTable
import SheepShear.Video.GammaRuns
import SheepShear.Router.Segment
import SheepShear.Router.Icmp
import SheepShear.Clip.ReadProperty
import SheepShear.Router.IcmpBuffers
import SheepShear.Clip.Selection
import SheepShear.Clip.SelectionExact
import SheepShear.Clip.Scrap
import SheepShear.Clip.ScrapExact
import SheepShear.ExtFs.Charset
import SheepShear.ExtFs.CharsetRoundTrip
import SheepShear.Timer.HostTimeExact
import SheepShear.Jit.DataPool
import SheepShear.Jit.DataPoolSafe
import SheepShear.Ether.SheepNet
import SheepShear.Ether.SheepNetExact
import SheepShear.Lib.Lanes
import SheepShear.Video.Blit
import SheepShear.Video.BlitExact
import SheepShear.Timer.Thread
import SheepShear.Timer.ThreadRuns
import SheepShear.Timer.Wakeups
import SheepShear.Kpx.CompileBlock
import SheepShear.Lib.Pieces
import SheepShear.Lib.SeqNum
import SheepShear.Lib.WrapRing
import SheepShear.Slirp.Fragment
import SheepShear.Slirp.Sbuf
import SheepShear.Slirp.Socket
import SheepShear.Slirp.SocketRuns
import SheepShear.Slirp.TcpReass
import SheepShear.Slirp.TcpReassRuns
