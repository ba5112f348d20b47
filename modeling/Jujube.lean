import Jujube.MemRun
import Jujube.ServerFraming
import Jujube.BufQueue
import Jujube.Client
import Jujube.ConnectionRun
import Jujube.ClientTable
import Jujube.ClientCallbacks
import Jujube.ClientCreate
import Jujube.ClientRun
import Jujube.Foundation.Regions
import Jujube.MemRegions
import Jujube.StreamLife
import Jujube.ClientTransfer
import Jujube.ClientIdle
import Jujube.ClientKeepAlive
import Jujube.KeepAliveRun
import Jujube.CString
import Jujube.IpScan
import Jujube.IpDotted
import Jujube.IpOverrun
import Jujube.IpHost
import Jujube.MemPeak
import Jujube.SockAddr
import Jujube.MemStatistics
import Jujube.ServerAccept
import Jujube.ClientFull
import Jujube.ServerWorkBuf
import Jujube.ListSequences
import Jujube.MemReport
import Jujube.StreamReceived
import Jujube.FastLzCompress
import Jujube.FastLzDecompress
import Jujube.ServerProcess
import Jujube.ServerSlots
import Jujube.ServerIsolation
import Jujube.ServerRun
import Jujube.ClientTraffic
import Jujube.EndToEnd
import Jujube.ServerSweep
import Jujube.ServerResources
import Jujube.PoolGrowth
import Jujube.ServerMemory
