import Bfd.Basic
import Bfd.Session
import Bfd.Poll
import Bfd.Frame
import Bfd.PollSequence
import Bfd.Timers
import Bfd.Intervals
import Bfd.Broker
import Bfd.BrokerFrame
import Bfd.BrokerInv
import Bfd.BrokerOps
import Bfd.BrokerRequest
import Bfd.BrokerEngine
import Bfd.BrokerNotify
import Bfd.BrokerRun
import Bfd.BrokerProgress
import Bfd.Registry
import Bfd.RegistryInv
import Bfd.BrokerCalls
import Bfd.BrokerQueues
import Bfd.BrokerIndex
import Bfd.BrokerRegistry
import Bfd.Neighbors
import Bfd.BrokerDispatch
import Bfd.NeighborTracking
import Bfd.NeighborRuns
import Bfd.StateDiagram
import Bfd.Reconfigure
import Bfd.BrokerSessions
import Bfd.RequestDiag
import Bfd.BrokerRefinement
