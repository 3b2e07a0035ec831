import VmPlayback.Bytes
import VmPlayback.Lanes
import VmPlayback.Exec
import VmPlayback.Runs
import VmPlayback.Transducer
import VmPlayback.Redraw
import VmPlayback.Handles
import VmPlayback.Sharing
import VmPlayback.Message
import VmPlayback.ReaderBounds
import VmPlayback.MessageBuilder
import VmPlayback.AppendOnly
import VmPlayback.WriteRoom
import VmPlayback.SharedBuffers
import VmPlayback.RefCounts
import VmPlayback.RoundTrip
import VmPlayback.ReaderOps
import VmPlayback.Connection
import VmPlayback.Pipe
import VmPlayback.BlockMode
import VmPlayback.MessageConnection
import VmPlayback.Framing
import VmPlayback.MessageStream
import VmPlayback.Bandwidth
import VmPlayback.TypedChannel
import VmPlayback.Sockets
import VmPlayback.SocketMethods
import VmPlayback.Strays
import VmPlayback.SocketAccounting
import VmPlayback.Letterbox
import VmPlayback.IntArith
import VmPlayback.CalcScale
import VmPlayback.Placement
import VmPlayback.Vbe
import VmPlayback.VgaPorts
import VmPlayback.VgaMemory
import VmPlayback.VgaBus
import VmPlayback.VgaPlanes
import VmPlayback.VgaLines
import VmPlayback.VgaDraw
import VmPlayback.VgaText
import VmPlayback.VgaScreen
import VmPlayback.VgaSurface
import VmPlayback.VgaPicture
import VmPlayback.Playback
import VmPlayback.DisplayRect
import VmPlayback.Transitions
import VmPlayback.DecodePort
import VmPlayback.Coherence
import VmPlayback.LockBalance
import VmPlayback.DisplayOnce
import VmPlayback.DecodeStream
import VmPlayback.ChangePort
import VmPlayback.ClientRect
import VmPlayback.Overlays
import VmPlayback.EmptyOverlay
import VmPlayback.Emulator
