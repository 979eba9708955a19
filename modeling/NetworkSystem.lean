import NetworkSystem.Dfc.AnyOrder
import NetworkSystem.Dfc.Atomic
import NetworkSystem.Dfc.Buffers
import NetworkSystem.Dfc.Config
import NetworkSystem.Dfc.Confinement
import NetworkSystem.Dfc.Framing
import NetworkSystem.Dfc.Grouping
import NetworkSystem.Dfc.Handlers
import NetworkSystem.Dfc.Isolation
import NetworkSystem.Dfc.Keys
import NetworkSystem.Dfc.Listing
import NetworkSystem.Dfc.Lockstep
import NetworkSystem.Dfc.Sessions
import NetworkSystem.Dfc.Silence
import NetworkSystem.Udp.Progress
import NetworkSystem.Udp.Stray
import NetworkSystem.Http.Accounting
import NetworkSystem.Http.Blanks
import NetworkSystem.Http.Delivery
import NetworkSystem.Http.Descriptors
import NetworkSystem.Http.Headers
import NetworkSystem.Http.Root
import NetworkSystem.Http.Segments
import NetworkSystem.Http.Serving
import NetworkSystem.Http.StatusLine
import NetworkSystem.Proxy.Descriptors
import NetworkSystem.Proxy.Leftovers
import NetworkSystem.Proxy.Origin
import NetworkSystem.DataLengths
import NetworkSystem.Endings
import NetworkSystem.Offsets
import NetworkSystem.Seeks
import NetworkSystem.Strip
