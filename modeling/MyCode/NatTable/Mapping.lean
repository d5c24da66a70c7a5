import MyCode.Bitmap
import MyCode.Hash.Contents
import MyCode.Net

/-!
# NAT mapping tables

`nat_tcp.c` and `nat_udp.c`: one context with its port bitmap and its two tables.  The
two files differ in their statuses only, so a context is modelled once over them.  A
timer may expire at any time.  A step has no result where the code reads a node that
was freed or writes behind the words of the bitmap.
-/

namespace MyCode.NatTable

open MyCode.Hash MyCode.Bitmap

structure NatMapNode where
  address : Nat
  uiPrivateIp : UINT
  usPrivatePort : USHORT
  uiPubIp : UINT
  usPubPort : USHORT
  uiDomainId : UINT
  deriving DecidableEq

structure NatCtrl (Status : Type) where
  auiPubIp : Nat → UINT
  usMinPort : USHORT
  usMaxPort : USHORT
  hPrivateHashHandle : HashS NatMapNode
  hPubHashHandle : HashS NatMapNode
  portBitMap : BitmapS
  ucStatus : Nat → Status
  /-- The nodes that were allocated and not freed. -/
  allocated : Finset NatMapNode

structure NatPrivateKey where
  uiIp : UINT
  usPort : USHORT
  uiDomainId : UINT
  deriving DecidableEq

structure NatPubKey where
  uiIp : UINT
  usPort : USHORT
  deriving DecidableEq

def NatMapNode.privateKey (node : NatMapNode) : NatPrivateKey :=
  ⟨node.uiPrivateIp, node.usPrivatePort, node.uiDomainId⟩

def NatMapNode.pubKey (node : NatMapNode) : NatPubKey :=
  ⟨node.uiPubIp, node.usPubPort⟩

def natHashIndex (uiIp : UINT) (usPort : USHORT) : UINT :=
  ntohl uiIp + (ntohs usPort).setWidth 32

def natCmp (uiIp1 : UINT) (usPort1 : USHORT) (uiIp2 : UINT) (usPort2 : USHORT) : UINT :=
  if uiIp1 - uiIp2 ≠ 0 then uiIp1 - uiIp2 else usPort1.setWidth 32 - usPort2.setWidth 32

def natPrivateFuncs : HashFuncs NatMapNode NatPrivateKey where
  key := NatMapNode.privateKey
  pfHashIndexFunc key := natHashIndex key.uiIp key.usPort
  pfCmpFunc first second :=
    let iCmpResult := natCmp first.uiIp first.usPort second.uiIp second.usPort
    if iCmpResult ≠ 0 then iCmpResult else first.uiDomainId - second.uiDomainId

def natPubFuncs : HashFuncs NatMapNode NatPubKey where
  key := NatMapNode.pubKey
  pfHashIndexFunc key := natHashIndex key.uiIp key.usPort
  pfCmpFunc first second := natCmp first.uiIp first.usPort second.uiIp second.usPort

structure NatProto (Status : Type) where
  permitAdd : UCHAR → Bool
  synSend : Status
  stepPrivate : Status → UCHAR → Status
  stepPub : Status → UCHAR → Status
  closes : Status → Bool

inductive NatTcpStatus where
  | synSend
  | synReceived
  | established
  | iFinWait1
  | iFinWait2
  | iTimeWait
  | oFinWait1
  | oFinWait2
  | oTimeWait
  | timeWait
  | closed
  deriving DecidableEq

def NatTcpStatus.isUpToEstablished : NatTcpStatus → Bool
  | synSend | synReceived | established => true
  | _ => false

def tcpFlag (ucFlag flag : UCHAR) : Bool :=
  ucFlag &&& flag != 0

def tcpFlagFin : UCHAR := 0x01
def tcpFlagSyn : UCHAR := 0x02
def tcpFlagRst : UCHAR := 0x04
def tcpFlagAck : UCHAR := 0x10

def natTcpStepPrivateStatus (ucStatus : NatTcpStatus) (ucFlag : UCHAR) : NatTcpStatus :=
  let ucStatus := if tcpFlag ucFlag tcpFlagRst then .closed else ucStatus
  let ucStatus :=
    if tcpFlag ucFlag tcpFlagAck then
      match ucStatus with
      | .synReceived => .established
      | .iTimeWait => .timeWait
      | .oFinWait1 => .oFinWait2
      | _ => ucStatus
    else
      ucStatus
  if tcpFlag ucFlag tcpFlagFin then
    if ucStatus.isUpToEstablished then .iFinWait1
    else if ucStatus = .oFinWait2 then .oTimeWait
    else ucStatus
  else
    ucStatus

def natTcpStepPubStatus (ucStatus : NatTcpStatus) (ucFlag : UCHAR) : NatTcpStatus :=
  let ucStatus := if tcpFlag ucFlag tcpFlagRst then .closed else ucStatus
  let ucStatus :=
    if tcpFlag ucFlag tcpFlagSyn then
      if ucStatus = .synSend then .synReceived else ucStatus
    else
      ucStatus
  let ucStatus :=
    if tcpFlag ucFlag tcpFlagAck then
      match ucStatus with
      | .iFinWait1 => .iFinWait2
      | .oTimeWait => .timeWait
      | _ => ucStatus
    else
      ucStatus
  if tcpFlag ucFlag tcpFlagFin then
    if ucStatus.isUpToEstablished then .oFinWait1
    else if ucStatus = .iFinWait2 then .iTimeWait
    else ucStatus
  else
    ucStatus

def natTcp : NatProto NatTcpStatus where
  permitAdd ucFlag := tcpFlag ucFlag tcpFlagSyn
  synSend := .synSend
  stepPrivate := natTcpStepPrivateStatus
  stepPub := natTcpStepPubStatus
  closes ucStatus := ucStatus = .closed || ucStatus = .timeWait

inductive NatUdpStatus where
  | synSend
  | synReceived
  | established
  deriving DecidableEq

def natUdp : NatProto NatUdpStatus where
  permitAdd _ := true
  synSend := .synSend
  stepPrivate ucStatus _ := if ucStatus = .synReceived then .established else ucStatus
  stepPub ucStatus _ := if ucStatus = .synSend then .synReceived else ucStatus
  closes _ := false

variable {Status : Type}

def natInit (proto : NatProto Status) (usMinPort usMaxPort : USHORT) : Option (NatCtrl Status) :=
  if usMinPort > usMaxPort then
    none
  else
    some
      { auiPubIp := fun _ => 0
        usMinPort := usMinPort
        usMaxPort := usMaxPort
        hPrivateHashHandle := hashInit 1023
        hPubHashHandle := hashInit 1023
        portBitMap := bitmapCreate (usMaxPort.setWidth 32 - usMinPort.setWidth 32 + 1)
        ucStatus := fun _ => proto.synSend
        allocated := ∅ }

section Operations

variable (proto : NatProto Status) (ctrl : NatCtrl Status)

/-- The index from one on goes to `BITMAP_SET`, which counts from zero. -/
def natGetPort : Option (NatCtrl Status × USHORT) :=
  let (portBitMap, uiIndexFrom1) := bitmap1GetFreeCycle ctrl.portBitMap
  if uiIndexFrom1 = 0 then
    some ({ ctrl with portBitMap := portBitMap }, 0)
  else
    (bitmapSet portBitMap uiIndexFrom1).map fun portBitMap =>
      ({ ctrl with portBitMap := portBitMap },
        htons ((ctrl.usMinPort.setWidth 32 + uiIndexFrom1 - 1).setWidth 16))

def natFreePort (usPort : USHORT) : Option (NatCtrl Status) :=
  let uiIndexFrom1 : UINT := (ntohs usPort).setWidth 32 - ctrl.usMinPort.setWidth 32 + 1
  (bitmap1Clr ctrl.portBitMap uiIndexFrom1).map fun portBitMap =>
    { ctrl with portBitMap := portBitMap }

/-- No node in the bucket of a public endpoint was freed. -/
def natPubUsable (key : NatPubKey) : Bool :=
  (ctrl.hPubHashHandle.pstBuckets
    (hashIndex ctrl.hPubHashHandle (natPubFuncs.pfHashIndexFunc key))).all fun hashNode =>
      hashNode.node ∈ ctrl.allocated

/-- `alloc` is the memory of a new node, and `timer` whether its timer could be created. -/
def natAddMapNode (alloc : Option Nat) (timer : Bool) (uiPrivateIp : UINT) (usPrivatePort : USHORT)
    (uiDomainId : UINT) : Option (NatCtrl Status × Option NatMapNode) :=
  if ctrl.auiPubIp 0 = 0 then
    some (ctrl, none)
  else
    match natGetPort ctrl with
    | none => none
    | some (ctrl, usPubPort) =>
      if usPubPort = 0 then
        some (ctrl, none)
      else
        match alloc, timer with
        | some address, true =>
          let node : NatMapNode :=
            ⟨address, uiPrivateIp, usPrivatePort, ctrl.auiPubIp 0, usPubPort, uiDomainId⟩
          if natPubUsable ctrl node.pubKey then
            some ({ ctrl with
              hPrivateHashHandle := hashAdd natPrivateFuncs ctrl.hPrivateHashHandle node
              hPubHashHandle := hashAdd natPubFuncs ctrl.hPubHashHandle node
              ucStatus := Function.update ctrl.ucStatus address proto.synSend
              allocated := insert node ctrl.allocated }, some node)
          else
            none
        | _, _ => (natFreePort ctrl usPubPort).map fun ctrl => (ctrl, none)

def natFreeMapNode (node : NatMapNode) : Option (NatCtrl Status) :=
  if natPubUsable ctrl node.pubKey then
    natFreePort
      { ctrl with
        hPrivateHashHandle := hashDelNode natPrivateFuncs ctrl.hPrivateHashHandle node
        hPubHashHandle := hashDelNode natPubFuncs ctrl.hPubHashHandle node
        allocated := ctrl.allocated.erase node } node.usPubPort
  else
    none

def natTimeOut (node : NatMapNode) : Option (NatCtrl Status) :=
  natFreeMapNode ctrl node

def natProcessPkt (node : NatMapNode) (ucStatus : Status) : Option (NatCtrl Status) :=
  let ctrl := { ctrl with ucStatus := Function.update ctrl.ucStatus node.address ucStatus }
  if proto.closes ucStatus then natFreeMapNode ctrl node else some ctrl

def natProcessPrivatePkt (node : NatMapNode) (ucFlag : UCHAR) : Option (NatCtrl Status) :=
  natProcessPkt proto ctrl node (proto.stepPrivate (ctrl.ucStatus node.address) ucFlag)

def natProcessPubPkt (node : NatMapNode) (ucFlag : UCHAR) : Option (NatCtrl Status) :=
  natProcessPkt proto ctrl node (proto.stepPub (ctrl.ucStatus node.address) ucFlag)

def natPrivateGetMapNode (uiIp : UINT) (usPort : USHORT) (uiDomainId : UINT) : Option NatMapNode :=
  hashFind natPrivateFuncs ctrl.hPrivateHashHandle ⟨uiIp, usPort, uiDomainId⟩

/-- The mapping of a packet from inside, which is added where there is none. -/
def natPrivateMapNode (alloc : Option Nat) (timer : Bool) (uiIp : UINT) (usPort : USHORT)
    (uiDomainId : UINT) (ucFlag : UCHAR) : Option (NatCtrl Status × Option NatMapNode) :=
  match natPrivateGetMapNode ctrl uiIp usPort uiDomainId with
  | some node => some (ctrl, some node)
  | none =>
    if proto.permitAdd ucFlag then natAddMapNode proto ctrl alloc timer uiIp usPort uiDomainId
    else some (ctrl, none)

/-- The result and the source of the packet as it leaves. -/
def natPrivatePktIn (alloc : Option Nat) (timer : Bool) (uiIp : UINT) (usPort : USHORT)
    (uiDomainId : UINT) (ucFlag : UCHAR) : Option (NatCtrl Status × BsStatus × UINT × USHORT) :=
  match natPrivateMapNode proto ctrl alloc timer uiIp usPort uiDomainId ucFlag with
  | none => none
  | some (ctrl, none) => some (ctrl, .noSuch, uiIp, usPort)
  | some (ctrl, some node) =>
    (natProcessPrivatePkt proto ctrl node ucFlag).map fun ctrl =>
      (ctrl, .ok, node.uiPubIp, node.usPubPort)

/-- The result, the destination of the packet as it leaves and its domain. -/
def natPubPktIn (uiIp : UINT) (usPort : USHORT) (uiDomainId : UINT) (ucFlag : UCHAR) :
    Option (NatCtrl Status × BsStatus × UINT × USHORT × UINT) :=
  let usDstPort := ntohs usPort
  if usDstPort < ctrl.usMinPort ∨ usDstPort > ctrl.usMaxPort then
    some (ctrl, .noPermit, uiIp, usPort, uiDomainId)
  else if !natPubUsable ctrl ⟨uiIp, usPort⟩ then
    none
  else
    match hashFind natPubFuncs ctrl.hPubHashHandle ⟨uiIp, usPort⟩ with
    | none => some (ctrl, .noSuch, uiIp, usPort, uiDomainId)
    | some node =>
      (natProcessPubPkt proto ctrl node ucFlag).map fun ctrl =>
        (ctrl, .ok, node.uiPrivateIp, node.usPrivatePort, node.uiDomainId)

/-- The nodes are freed and stay in the table of the public endpoints. -/
def natSetPubIp (auiPubIp : Nat → UINT) : NatCtrl Status :=
  { ctrl with
    auiPubIp := auiPubIp
    hPrivateHashHandle := hashDelAllWith ctrl.hPrivateHashHandle true
    hPubHashHandle := hashDelAllWith ctrl.hPubHashHandle false
    allocated :=
      if ctrl.hPrivateHashHandle.uiNodeCount = 0 then ctrl.allocated
      else ctrl.allocated.filter fun node => node ∉ hashWalk ctrl.hPrivateHashHandle }

end Operations

def natTcpPrivatePktIn := @natPrivatePktIn NatTcpStatus natTcp

def natTcpPubPktIn := @natPubPktIn NatTcpStatus natTcp

def natUdpPrivatePktIn := @natPrivatePktIn NatUdpStatus natUdp

def natUdpPubPktIn := @natPubPktIn NatUdpStatus natUdp

end MyCode.NatTable
