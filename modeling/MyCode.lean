import MyCode.AddressPool.Pool
import MyCode.Arp.Runs
import MyCode.BinaryHeap.Order
import MyCode.BitMatch.Matchers
import MyCode.Bitmap.Scans
import MyCode.ConsistentHash
import MyCode.Cuckoo.Index
import MyCode.DataQue.Fifo
import MyCode.Dhcps.Exclusive
import MyCode.Dns
import MyCode.DomainGroup
import MyCode.Dstream.Framing
import MyCode.Fib.AutoIf
import MyCode.Fib.NextHops
import MyCode.Fsm.Events
import MyCode.HeavyKeep.Highest
import MyCode.IdKey.Bijection
import MyCode.Idtbl.Agreement
import MyCode.InChecksum
import MyCode.IpAcl.References
import MyCode.IpMaskTbl.Next
import MyCode.IpSession.Agreement
import MyCode.IpSession.Key
import MyCode.IpmaskBitmap
import MyCode.KeepAliveTimer
import MyCode.KeepAliveUse
import MyCode.Leb
import MyCode.LevelTopn.Admission
import MyCode.Lpm.DynamicShape
import MyCode.Lpm.Restart
import MyCode.Mbuf.Blanks
import MyCode.Mbuf.Runs
import MyCode.Mkv.Runs
import MyCode.Nap.ByIndex
import MyCode.Nap.Count
import MyCode.NatTable.Agreement
import MyCode.NumList
import MyCode.RArray.Refinement
import MyCode.RbTree.Sound
import MyCode.Rbuf.Queue
import MyCode.Ring.Fifo
import MyCode.RuleList.Move
import MyCode.SegmentBitmap
import MyCode.Ses.Agreement
import MyCode.Ses.Handshake
import MyCode.SkipList
import MyCode.Stream2Ip.Packets
import MyCode.Sunday
import MyCode.TcpReassemble.Overlaps
import MyCode.Tcpb.Delivery
import MyCode.Tmsg.Exchange
import MyCode.TokenBucket
import MyCode.Tp.Delivery
import MyCode.Tp.HalfOpen
import MyCode.Tp.Handshake
import MyCode.Trie.Hostname
import MyCode.Xml.Parsing
