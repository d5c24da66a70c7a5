import MyCode.MacTable.Table
import MyCode.Net

/-!
# ARP

`arp/arp_imp.c`.  The timer of a node is part of it, so a node is known by its timer; what
an operation hands to others is the list of its effects.
-/

namespace MyCode.Arp

open Hash Vclock MacTable

def arpHashBucketNum : UINT := 1024

def arpRetryTimeInterval : UINT := 1

def arpRequest : USHORT := 1

def arpReply : USHORT := 2

inductive ArpType where
  | static
  | dynamic
  deriving DecidableEq

structure ArpNode where
  ulIp : UINT
  stMacAddr : MacAddr
  eType : ArpType
  vclock_node : NodeId
  deriving DecidableEq

structure ArpResolvingNode (Packet : Type) where
  ulIpToResolve : UINT
  vclock_node : NodeId
  pstPacketList : List Packet

/-- The two functions that a timer may have been started with. -/
inductive ArpTimer where
  | resolvingTimeOut
  | nodeTimeOut
  deriving DecidableEq

structure ArpInstance (Packet : Type) where
  stHostMac : MacAddr
  hHashId : HashS ArpNode
  stResolvingList : List (ArpResolvingNode Packet)
  hVclock : VclockInstance
  uiTimeOutTick : UINT
  pfFunc : NodeId → ArpTimer

/-- `ARP_HEADER_S` beside its constant fields. -/
structure ArpHeader where
  usOperation : USHORT
  aucSenderHA : MacAddr
  ulSenderIp : UINT
  aucDstHA : MacAddr
  ulDstIp : UINT
  deriving DecidableEq

/-- A packet of `ARP_BuildPacket` with its ethernet marks. -/
structure ArpPacket where
  header : ArpHeader
  dstMac : MacAddr
  sourceMac : MacAddr
  sendIfIndex : UINT
  deriving DecidableEq

inductive ArpEffect (Packet : Type) where
  | sendArp (pstMbuf : ArpPacket)
  | sendPacket (pstMbuf : Packet) (dstMac : MacAddr)
  | freePacket (pstMbuf : Packet)

def zeroMac : MacAddr :=
  ⟨Vector.replicate 6 0⟩

def broadcastMac : MacAddr :=
  ⟨Vector.replicate 6 0xff⟩

def arpHashFuncs : HashFuncs ArpNode UINT where
  key := ArpNode.ulIp
  pfHashIndexFunc := ntohl
  pfCmpFunc ulIp1 ulIp2 := ulIp1 - ulIp2

variable {Packet : Type}

def arpCreateInstance (uiTimeOutTick : UINT) : ArpInstance Packet :=
  { stHostMac := zeroMac
    hHashId := hashInit (arpHashBucketNum - 1)
    stResolvingList := []
    hVclock := vclockInitInstance
    uiTimeOutTick := uiTimeOutTick
    pfFunc := fun _ => .nodeTimeOut }

def arpBuildPacketTo (uiSrcIp uiDstIp : UINT) (pucSrcMac : MacAddr) (pucDstMac : Option MacAddr)
    (usArpType : USHORT) (uiIfIndex : UINT) : ArpPacket :=
  { header := ⟨htons usArpType, pucSrcMac, uiSrcIp, pucDstMac.getD zeroMac, uiDstIp⟩
    dstMac := pucDstMac.getD broadcastMac
    sourceMac := pucSrcMac
    sendIfIndex := uiIfIndex }

section Operations

variable (arp : ArpInstance Packet)

def arpFind (ulIp : UINT) : Option ArpNode :=
  hashFind arpHashFuncs arp.hHashId ulIp

def arpGetResolvingNode (ulIpToResolve : UINT) : Option (ArpResolvingNode Packet) :=
  arp.stResolvingList.find? fun node => node.ulIpToResolve = ulIpToResolve

/-- `_arp_BuildPacket`; `ifMac` is the address of the interface. -/
def arpBuildPacket (uiIfIndex uiSrcIp uiDstIp : UINT) (pucDstArpMac : Option MacAddr)
    (usArpType : USHORT) (ifMac : MacAddr) : ArpPacket :=
  arpBuildPacketTo uiSrcIp uiDstIp (if ifMac = zeroMac then arp.stHostMac else ifMac) pucDstArpMac
    usArpType uiIfIndex

def arpReSendMbufList (pstMbufList : List Packet) (pucDstMac : MacAddr) : List (ArpEffect Packet) :=
  pstMbufList.map fun pstMbuf => .sendPacket pstMbuf pucDstMac

def arpFreeResolvingNode (pstNode : ArpResolvingNode Packet) :
    ArpInstance Packet × List (ArpEffect Packet) :=
  ({ arp with
      stResolvingList := arp.stResolvingList.eraseP fun node =>
        node.vclock_node = pstNode.vclock_node },
    pstNode.pstPacketList.map .freePacket)

/-- `VCLOCK_AddTimer` with the function of the timer. -/
def arpAddTimer (hTimer : NodeId) (tick : UINT) (pfFunc : ArpTimer) : ArpInstance Packet :=
  { arp with
    hVclock := vclockAddTimer arp.hVclock hTimer tick tick 0
    pfFunc := Function.update arp.pfFunc hTimer pfFunc }

/-- `memory` is where there is memory for a node. -/
def arpAddResolvingNode (ulIpToResolve : UINT) (memory : Option NodeId) :
    Option (ArpInstance Packet × ArpResolvingNode Packet) :=
  match memory with
  | none => none
  | some hTimer =>
    let pstNode := ⟨ulIpToResolve, hTimer, []⟩
    let arp := arpAddTimer arp hTimer arpRetryTimeInterval .resolvingTimeOut
    some ({ arp with stResolvingList := arp.stResolvingList ++ [pstNode] }, pstNode)

def arpAddPacketToResolvingNode (pstResolvingNode : ArpResolvingNode Packet) (pstMbuf : Packet) :
    ArpInstance Packet :=
  { arp with
    stResolvingList := Lib.updateFirst
      (fun node => node.vclock_node = pstResolvingNode.vclock_node)
      (fun node => { node with pstPacketList := pstMbuf :: node.pstPacketList })
      arp.stResolvingList }

/-- `uiHostIP` is the answer of `pfGetHostIp`. -/
def arpResolveIp (uiIfIndex ulIpToResolve : UINT) (pstMbuf : Packet) (uiHostIP : UINT)
    (ifMac : MacAddr) (memory : Option NodeId) :
    ArpInstance Packet × List (ArpEffect Packet) × BsStatus :=
  match arpGetResolvingNode arp ulIpToResolve with
  | some pstResolvingNode => (arpAddPacketToResolvingNode arp pstResolvingNode pstMbuf, [], .ok)
  | none =>
    if uiHostIP = 0 then (arp, [], .notFound)
    else
      let pstArpMbuf := arpBuildPacket arp uiIfIndex uiHostIP ulIpToResolve none arpRequest ifMac
      match arpAddResolvingNode arp ulIpToResolve memory with
      | none => (arp, [], .noMemory)
      | some (arp, pstResolvingNode) =>
        (arpAddPacketToResolvingNode arp pstResolvingNode pstMbuf, [.sendArp pstArpMbuf], .ok)

/-- `ARP_GetMacByIp`, with `*pstMacAddr` when it is written. -/
def arpGetMacByIp (uiIfIndex ulIpToResolve : UINT) (pstMbuf : Packet) (uiHostIP : UINT)
    (ifMac : MacAddr) (memory : Option NodeId) :
    ArpInstance Packet × List (ArpEffect Packet) × BsStatus × Option MacAddr :=
  match arpFind arp ulIpToResolve with
  | some pstArpNode => (arp, [], .ok, some pstArpNode.stMacAddr)
  | none =>
    match arpResolveIp arp uiIfIndex ulIpToResolve pstMbuf uiHostIP ifMac memory with
    | (arp, effects, .ok) => (arp, effects, .processed, none)
    | (arp, effects, _) => (arp, effects, .err, none)

def arpAdd (ulIp : UINT) (pstMac : MacAddr) (eType : ArpType) (memory : Option NodeId) :
    ArpInstance Packet × BsStatus :=
  match arpFind arp ulIp with
  | some pstNode =>
    if pstNode.eType = .static ∧ eType = .dynamic then (arp, .ok)
    else
      ({ arp with
          hHashId := hashUpdate arpHashFuncs arp.hHashId ulIp fun node =>
            { node with stMacAddr := pstMac, eType := eType } }, .ok)
  | none =>
    match memory with
    | none => (arp, .noMemory)
    | some hTimer =>
      let arp :=
        if eType = .dynamic then arpAddTimer arp hTimer arp.uiTimeOutTick .nodeTimeOut else arp
      ({ arp with hHashId := hashAdd arpHashFuncs arp.hHashId ⟨ulIp, pstMac, eType, hTimer⟩ },
        .ok)

def arpAddStaticARP (uiIP : UINT) (pstMac : MacAddr) (memory : Option NodeId) :
    ArpInstance Packet × BsStatus :=
  arpAdd arp uiIP pstMac .static memory

/-- `bIsHost` is the answer of `pfIsHostIp`. -/
def arpDealArpRequest (uiIfIndex : UINT) (pstArpHeader : ArpHeader) (bIsHost : Bool)
    (ifMac : MacAddr) (memory : Option NodeId) : ArpInstance Packet × List (ArpEffect Packet) :=
  if bIsHost = false then (arp, [])
  else
    let (arp, _) := arpAdd arp pstArpHeader.ulSenderIp pstArpHeader.aucSenderHA .dynamic memory
    (arp, [.sendArp (arpBuildPacket arp uiIfIndex pstArpHeader.ulDstIp pstArpHeader.ulSenderIp
      (some pstArpHeader.aucSenderHA) arpReply ifMac)])

/-- The packets to send are handed out before the node is freed. -/
def arpInnerDealArpReplay (pstArpHeader : ArpHeader) (memory : Option NodeId) :
    ArpInstance Packet × List Packet :=
  match arpGetResolvingNode arp pstArpHeader.ulSenderIp with
  | none => (arp, [])
  | some pstNode =>
    let arp := { arp with hVclock := vclockDelTimer arp.hVclock pstNode.vclock_node }
    let pstSendMbufList := pstNode.pstPacketList
    let (arp, _) := arpFreeResolvingNode arp { pstNode with pstPacketList := [] }
    ((arpAdd arp pstArpHeader.ulSenderIp pstArpHeader.aucSenderHA .dynamic memory).1,
      pstSendMbufList)

def arpDealArpReply (pstArpHeader : ArpHeader) (memory : Option NodeId) :
    ArpInstance Packet × List (ArpEffect Packet) :=
  let (arp, pstMbufList) := arpInnerDealArpReplay arp pstArpHeader memory
  (arp, arpReSendMbufList pstMbufList pstArpHeader.aucSenderHA)

/-- `pstArpHeader` is the begin of the packet, if it is long enough. -/
def arpPacketInput (uiIfIndex : UINT) (pstArpHeader : Option ArpHeader) (bIsHost : Bool)
    (ifMac : MacAddr) (memory : Option NodeId) : ArpInstance Packet × List (ArpEffect Packet) :=
  match pstArpHeader with
  | none => (arp, [])
  | some pstArpHeader =>
    if ntohs pstArpHeader.usOperation = arpRequest then
      arpDealArpRequest arp uiIfIndex pstArpHeader bIsHost ifMac memory
    else if ntohs pstArpHeader.usOperation = arpReply then
      arpDealArpReply arp pstArpHeader memory
    else (arp, [])

/-- `pstUserHandle` names the node, which is the one with the timer. -/
def arpResolvingTimeOut (hTimerHandle : NodeId) : ArpInstance Packet × List (ArpEffect Packet) :=
  match arp.stResolvingList.find? fun node => node.vclock_node = hTimerHandle with
  | none => (arp, [])
  | some pstNode => arpFreeResolvingNode arp pstNode

def arpNodeTimeOut (hTimerHandle : NodeId) : ArpInstance Packet :=
  match (hashWalk arp.hHashId).find? fun node => node.vclock_node = hTimerHandle with
  | none => arp
  | some pstNode =>
    if pstNode.eType = .static then arp
    else { arp with hHashId := hashDelNode arpHashFuncs arp.hHashId pstNode }

def arpTimeOut (hTimerHandle : NodeId) : ArpInstance Packet × List (ArpEffect Packet) :=
  match arp.pfFunc hTimerHandle with
  | .resolvingTimeOut => arpResolvingTimeOut arp hTimerHandle
  | .nodeTimeOut => (arpNodeTimeOut arp hTimerHandle, [])

end Operations

/-- The firing loop of `VCLOCK_Step`, for at most `turns` turns. -/
def arpFiring : Nat → ArpInstance Packet → ArpInstance Packet × List (ArpEffect Packet)
  | 0, arp => (arp, [])
  | turns + 1, arp =>
    match vclockStepFire arp.hVclock with
    | none => (arp, [])
    | some (hTimerHandle, vclock) =>
      let (arp, effects) := arpTimeOut { arp with hVclock := vclock } hTimerHandle
      let (arp, later) := arpFiring turns arp
      (arp, effects ++ later)

/-- No timer is started while the loop runs, so the list that it works on gets shorter. -/
def arpTimerStep (arp : ArpInstance Packet) : ArpInstance Packet × List (ArpEffect Packet) :=
  let vclock := vclockStepBegin arp.hVclock
  arpFiring (vclock.stTimerLevel 0 (vclock.ulCurrentLevelTick 0)).length
    { arp with hVclock := vclock }

end MyCode.Arp
