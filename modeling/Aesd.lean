import Aesd.Driver.CharDevice
import Aesd.Lib.PartialRun
import Aesd.Lib.Segments
import Aesd.Driver.WriteEffect
import Aesd.Driver.Ownership
import Aesd.Driver.Position
import Aesd.Driver.Search
import Aesd.Driver.Reading
import Aesd.Driver.Seeking
import Aesd.Driver.Pending
import Aesd.Driver.FailedWrite
import Aesd.Driver.Landed
import Aesd.Driver.Stream
import Aesd.Driver.Lifetime
import Aesd.Driver.Startup
import Aesd.Server.Command
import Aesd.Server.Connection
import Aesd.Server.Moves
import Aesd.Server.Framing
import Aesd.Server.Process
import Aesd.Server.Locking
import Aesd.Server.Registry
import Aesd.Server.Storage
import Aesd.Server.Sections
import Aesd.Server.Serving
import Aesd.Server.Answering
import Aesd.Server.FileBuild
import Aesd.Server.DriverBuild
import Aesd.Lib.HandleTable
import Aesd.Server.Descriptors
import Aesd.Server.Acknowledged
import Aesd.Server.Numerals
import Aesd.Server.Leftover
import Aesd.Server.Silence
import Aesd.Server.Isolation
import Aesd.Systemcalls.Exec
import Aesd.Systemcalls.Verdict
import Aesd.Lib.TailQueue
import Aesd.Driver.Following
import Aesd.Server.Threads
import Aesd.Server.Records
import Aesd.Server.Reclaim
import Aesd.Server.Waiting
import Aesd.Threading.StartThread
import Aesd.Threading.Verdict
import Aesd.Driver.Leaks
import Aesd.Server.AppendOnly
import Aesd.Server.PacketBuffer
import Aesd.Launch.Stage
import Aesd.Threading.Progress
