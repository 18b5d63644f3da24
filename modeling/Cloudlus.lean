import Cloudlus.Server.Job
import Cloudlus.Server.Hex
import Cloudlus.Server.Lru
import Cloudlus.Server.Dispatcher
import Cloudlus.Server.Invariant
import Cloudlus.Server.Fifo
import Cloudlus.Server.Status
import Cloudlus.Server.Queue
import Cloudlus.Server.Waiters
import Cloudlus.Server.Transport
import Cloudlus.Server.Results
import Cloudlus.Go.Runtime
import Cloudlus.Scen.Scenario
import Cloudlus.Scen.Capacity
import Cloudlus.Scen.Transform
import Cloudlus.Scen.Layout
import Cloudlus.Scen.Power
import Cloudlus.Scen.Interpolate
import Cloudlus.Scen.Sampling
import Cloudlus.Scen.Load
import Cloudlus.Scen.Bounds
