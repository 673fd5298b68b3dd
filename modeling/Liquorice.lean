import Liquorice.Oneshot
import Liquorice.Context.Exclusion
import Liquorice.Semaphore
import Liquorice.Rwlock
import Liquorice.Tcp.OrderlyClose
import Liquorice.Tcp.TimerRace
import Liquorice.Tcp.Stream
import Liquorice.Tcp.Listener
import Liquorice.Lcp.Identifiers
import Liquorice.Lcp.Overlap
import Liquorice.LinkMru
import Liquorice.Thread
import Liquorice.Ip.Slices
import Liquorice.Ip.Udp
import Liquorice.Ip.Corruption
import Liquorice.Tcp.Timeout
import Liquorice.Tcp.Demux
import Liquorice.Tcp.Acknowledge
import Liquorice.Tcp.StopAndWait
import Liquorice.Netbuf
import Liquorice.Context.WaitOrder
import Liquorice.Heap.FreeOrder
import Liquorice.Ipcp.Requests
import Liquorice.Lcp.RestartTimer
import Liquorice.Tcp.Options
import Liquorice.Tcp.Ports
import Liquorice.Ip.Quotation
import Liquorice.Tcp.Unreachable
import Liquorice.Tcp.Samples
import Liquorice.Tcp.Pointers
import Liquorice.Lcp.Negotiated
import Liquorice.Ipcp.RestartTimer
import Liquorice.Uart
import Liquorice.Ethdev
import Liquorice.EthernetIp.Routes
import Liquorice.Loadavg
