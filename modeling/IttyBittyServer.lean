import IttyBittyServer.Run
import IttyBittyServer.Upstream
import IttyBittyServer.ConList
import IttyBittyServer.WorkerPool
import IttyBittyServer.ProxyIteration
import IttyBittyServer.CheckAndSend
import IttyBittyServer.Segment
import IttyBittyServer.SharedNodes
import IttyBittyServer.Entries
import IttyBittyServer.ExclusiveNodes
import IttyBittyServer.ImageForward
import IttyBittyServer.Answers
import IttyBittyServer.Startup
import IttyBittyServer.Lifetime
import IttyBittyServer.Interrupt
import IttyBittyServer.Shutdown
import IttyBittyServer.ClientRequest
import IttyBittyServer.Deque
import IttyBittyServer.StripMemory
import IttyBittyServer.RequestMemory
import IttyBittyServer.Routing
import IttyBittyServer.SharedSend
import IttyBittyServer.FieldLookup
import IttyBittyServer.BodyLength
import IttyBittyServer.BodyCount
import IttyBittyServer.Removal
import IttyBittyServer.HostPort
import IttyBittyServer.CaseSearch
import IttyBittyServer.ImageRequest
import IttyBittyServer.SendContract
import IttyBittyServer.Compressor
import IttyBittyServer.Decoding
import IttyBittyServer.FileService
import IttyBittyServer.Redirect
import IttyBittyServer.HeaderMem
import IttyBittyServer.Teardown
import IttyBittyServer.Client
import IttyBittyServer.EndToEnd
import IttyBittyServer.Exchange
import IttyBittyServer.Listing
import IttyBittyServer.ProxyPool
import IttyBittyServer.Descriptors
import IttyBittyServer.Ledger
import IttyBittyServer.ProxyResources
import IttyBittyServer.ServerResources
import IttyBittyServer.SharedService
