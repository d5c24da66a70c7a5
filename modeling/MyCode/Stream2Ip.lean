import MyCode.Net

/-!
# Streams as packets

`stream2ip/stream2ip.c`.  The packets that are handed to `output_func` are collected in
the order of the calls.
-/

namespace MyCode.Stream2Ip

abbrev MacAddr := BitVec 48

structure EthHeader where
  stDMac : MacAddr
  stSMac : MacAddr
  usProto : USHORT
  deriving DecidableEq

structure S2ipIpv4Hdr where
  version_ihl : UCHAR
  type_of_service : UCHAR
  total_length : USHORT
  packet_id : USHORT
  fragment_offset : USHORT
  time_to_live : UCHAR
  next_proto_id : UCHAR
  hdr_checksum : USHORT
  src_addr : UINT
  dst_addr : UINT
  deriving DecidableEq

structure S2ipTcpHdr where
  src_port : USHORT
  dst_port : USHORT
  sent_seq : UINT
  recv_ack : UINT
  rsvd : BitVec 4
  hlen : BitVec 4
  tcp_flags : UCHAR
  rx_win : USHORT
  cksum : USHORT
  tcp_urp : USHORT
  deriving DecidableEq

structure S2ipS where
  smac : MacAddr
  dmac : MacAddr
  sip : UINT
  dip : UINT
  sport : USHORT
  dport : USHORT
  protocol : UCHAR
  seq : UINT
  ack : UINT
  deriving DecidableEq

/-- The ethernet header is `none` where nothing is written to it.  `client` is not in the
bytes: it says which of the two ends `ctrl` stood for. -/
structure S2ipPacket where
  eth : Option EthHeader
  ip : S2ipIpv4Hdr
  tcp : S2ipTcpHdr
  payload : List UCHAR
  pkt_len : Nat
  client : Bool
  deriving DecidableEq

def TCP_FLAG_FIN : UCHAR := 0x01

def TCP_FLAG_SYN : UCHAR := 0x02

def STREAM2IP_MAX_IP_LEN : Nat := 1500

/-- What the headers of 20, 20 and 14 bytes leave. -/
def STREAM2IP_MAX_TCP_PAYLOAD_LEN : Nat := STREAM2IP_MAX_IP_LEN - 20 - 20 - 14

def ushortBytes (word : USHORT) : List UCHAR :=
  [BitVec.ofNat 8 word.toNat, BitVec.ofNat 8 (word.toNat / 256)]

def S2ipIpv4Hdr.bytes (ip : S2ipIpv4Hdr) : List UCHAR :=
  [ip.version_ihl, ip.type_of_service] ++ ushortBytes ip.total_length ++
    ushortBytes ip.packet_id ++ ushortBytes ip.fragment_offset ++
    [ip.time_to_live, ip.next_proto_id] ++ ushortBytes ip.hdr_checksum ++
    (List.range 4).map (uintBytes ip.src_addr) ++ (List.range 4).map (uintBytes ip.dst_addr)

/-- The loop over the words; a last single byte is added as it is. -/
def s2ipAddWords : List UCHAR → UINT → UINT
  | first :: second :: rest, sum =>
    let sum := sum + (first.setWidth 32 + 256 * second.setWidth 32)
    s2ipAddWords rest (if sum > 0xffff then sum - 0xffff else sum)
  | [last], sum => sum + last.setWidth 32
  | [], sum => sum

def s2ipGet16bSum (bytes : List UCHAR) : USHORT :=
  let sum := s2ipAddWords bytes 0
  let sum := ((sum &&& 0xffff0000) >>> 16) + (sum &&& 0xffff)
  (sum &&& 0x0ffff).setWidth 16

/-- `packet_id` is the counter after it was moved on. -/
def s2ipFillIpHdr (ctrl : S2ipS) (packet_id total_len : USHORT) : S2ipIpv4Hdr :=
  let ip : S2ipIpv4Hdr :=
    { version_ihl := 0x45
      type_of_service := 0
      total_length := htons total_len
      packet_id := packet_id
      fragment_offset := htons 0x4000
      time_to_live := 0xff
      next_proto_id := ctrl.protocol
      hdr_checksum := 0
      src_addr := ctrl.sip
      dst_addr := ctrl.dip }
  let cksum := s2ipGet16bSum ip.bytes
  { ip with hdr_checksum := if cksum = 0xffff then cksum else ~~~cksum }

def s2ipFillTcpHdr (ctrl : S2ipS) (flags : UCHAR) : S2ipS × S2ipTcpHdr :=
  (if flags &&& (TCP_FLAG_SYN ||| TCP_FLAG_FIN) ≠ 0 then { ctrl with seq := ctrl.seq + 1 }
    else ctrl,
    { src_port := ctrl.sport
      dst_port := ctrl.dport
      sent_seq := htonl ctrl.seq
      recv_ack := htonl ctrl.ack
      rsvd := 0
      hlen := 5
      tcp_flags := flags
      rx_win := htons 65535
      cksum := 0
      tcp_urp := 0 })

/-- The control block, the static `packet_id`, and what was handed out and given. -/
structure S2ipRun where
  ctrl : S2ipS
  packet_id : USHORT
  client : Bool
  output : List S2ipPacket
  given : Bool → List UCHAR

def s2ipEth (ctrl : S2ipS) : EthHeader :=
  ⟨ctrl.dmac, ctrl.smac, htons 0x0800⟩

/-- Fill the headers and hand the packet to `output_func`. -/
def s2ipOutput (run : S2ipRun) (eth : Option EthHeader) (flags : UCHAR) (payload : List UCHAR) :
    S2ipRun :=
  let packet_id := run.packet_id + 1
  let ip := s2ipFillIpHdr run.ctrl packet_id (BitVec.ofNat 16 (20 + 20 + payload.length))
  let (ctrl, tcp) := s2ipFillTcpHdr run.ctrl flags
  { run with
    ctrl := ctrl
    packet_id := packet_id
    output := run.output ++ [⟨eth, ip, tcp, payload, 20 + 20 + payload.length + 14, run.client⟩] }

def s2ipSwitch (run : S2ipRun) : S2ipRun :=
  { run with
    client := !run.client
    ctrl :=
      { run.ctrl with
        sip := run.ctrl.dip
        dip := run.ctrl.sip
        sport := run.ctrl.dport
        dport := run.ctrl.sport
        seq := run.ctrl.ack
        ack := run.ctrl.seq } }

def s2ipHsk (run : S2ipRun) : S2ipRun :=
  let eth := s2ipEth run.ctrl
  let run := s2ipOutput run eth 0x2 []
  let run := s2ipSwitch run
  let run := s2ipOutput run eth 0x12 []
  let run := s2ipSwitch run
  s2ipOutput run eth 0x10 []

/-- One round of the loop: the segment is handed out, then `seq` moves on. -/
def s2ipSegment (run : S2ipRun) (eth : EthHeader) (segment : List UCHAR) : S2ipRun :=
  let run := s2ipOutput run eth 0x10 segment
  { run with ctrl := { run.ctrl with seq := run.ctrl.seq + BitVec.ofNat 32 segment.length } }

/-- The loop; every round takes at least one byte off `left`. -/
def s2ipSegments (eth : EthHeader) : Nat → S2ipRun → List UCHAR → S2ipRun
  | 0, run, _ => run
  | rounds + 1, run, left =>
    if left.length > 0 then
      let copy_len := min STREAM2IP_MAX_TCP_PAYLOAD_LEN left.length
      s2ipSegments eth rounds (s2ipSegment run eth (left.take copy_len)) (left.drop copy_len)
    else
      run

def s2ipData (run : S2ipRun) (data : List UCHAR) (ack : Bool) : S2ipRun :=
  let eth := s2ipEth run.ctrl
  let run := s2ipSegments eth data.length run data
  if ack then s2ipSwitch (s2ipOutput (s2ipSwitch run) eth 0x10 []) else run

/-- The ethernet header of its buffer is not filled. -/
def s2ipBye (run : S2ipRun) : S2ipRun :=
  let run := s2ipOutput run none 0x11 []
  let run := s2ipSwitch run
  let run := s2ipOutput run none 0x11 []
  s2ipSwitch run

/-- Data of the server is given between two calls of `S2IP_Switch`. -/
inductive S2ipCall where
  | hsk
  | data (bytes : List UCHAR) (ack : Bool)
  | bye
  | switch

def S2ipCall.run (run : S2ipRun) : S2ipCall → S2ipRun
  | hsk => s2ipHsk run
  | data bytes ack =>
    { s2ipData run bytes ack with
      given := Function.update run.given run.client (run.given run.client ++ bytes) }
  | bye => s2ipBye run
  | switch => s2ipSwitch run

/-- The calls one after the other from a control block on. -/
def s2ipRuns (ctrl : S2ipS) (packet_id : USHORT) (calls : List S2ipCall) : S2ipRun :=
  calls.foldl S2ipCall.run ⟨ctrl, packet_id, true, [], fun _ => []⟩

end MyCode.Stream2Ip
