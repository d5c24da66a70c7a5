import MyCode.IpPool.Exclusive
import MyCode.MacTable.Runs
import MyCode.Net

/-!
# The DHCP server

`dhcp/dhcps_utl.c`.  Addresses are in network order, apart from those of the pool.
-/

namespace MyCode.Dhcps

open IpPool LBitMap MacTable Vclock

def dhcpOpRequest : UCHAR := 1

def dhcpDiscover : Int := 1

def dhcpOffer : Int := 2

def dhcpRequest : Int := 3

def dhcpDecline : Int := 4

def dhcpAck : Int := 5

def dhcpNack : Int := 6

def dhcpsDeclineMaxTick : UINT := 3600

def dhcpsMacOldTime : UINT := 3600

/-- `sizeof(_DHCPS_DATA_S)`. -/
def dhcpsDataSize : UINT := 4

structure DhcpsInstance where
  hIpPool : IpPoolS
  hMacTbl : MacTbl UINT
  hSignedMacTbl : MacTbl UINT
  uiDeclineTick : UINT

structure DhcpsMemory where
  mac : MacTblMemory
  request : NodeAlloc
  range : Nat → NodeAlloc
  deny : NodeAlloc

structure DhcpsReply where
  ulMsgType : Int
  aucClientHaddr : MacAddr
  ulYourIp : UINT
  deriving DecidableEq

/-- `nodeAlloc` is whether there is memory for the range. -/
def dhcpsCreateInstance (nodeAlloc : Bool) (uiStartIp uiEndIp : UINT) : DhcpsInstance :=
  { hIpPool := (ippoolAddRange ippoolCreate nodeAlloc uiStartIp uiEndIp).1
    hMacTbl := mactblSetOldTick (mactblCreateInstance dhcpsDataSize) dhcpsMacOldTime
    hSignedMacTbl := mactblCreateInstance dhcpsDataSize
    uiDeclineTick := 0 }

/-- A node that only its address is written to. -/
def macNodeOf (stMac : MacAddr) : MacNode :=
  ⟨stMac, 0, 0⟩

/-- `MACTBL_Find` with a buffer for an address. -/
def dhcpsFind (hMacTbl : MacTbl UINT) (stMacTbl : MacNode) (stData : UINT) :
    BsStatus × MacNode × UINT :=
  let (eRet, stMacTbl, pUserData) := mactblGet hMacTbl stMacTbl (some stData)
  (eRet, stMacTbl, pUserData.getD stData)

def dhcpsMacDel (hIpPool : IpPoolS) (pData : Option UINT) : IpPoolS :=
  match pData with
  | none => hIpPool
  | some uiIp => if uiIp = 0 then hIpPool else ippoolFreeIp hIpPool (ntohl uiIp)

section Operations

variable (pstInstance : DhcpsInstance)

/-- `mactbl_Free` after the notification. -/
def dhcpsFreeLease (pstMacNode : MacTblNode UINT) : DhcpsInstance :=
  { pstInstance with
    hIpPool := dhcpsMacDel pstInstance.hIpPool pstMacNode.pUserData
    hMacTbl := mactblFree pstInstance.hMacTbl pstMacNode }

/-- `MACTBL_Del` on the leases. -/
def dhcpsDelLease (stMac : MacAddr) : DhcpsInstance :=
  match mactblFind pstInstance.hMacTbl stMac with
  | none => pstInstance
  | some pstMacNode => dhcpsFreeLease pstInstance pstMacNode

/-- The end of `dhcps_GetIp`. -/
def dhcpsAddLease (stMacTbl : MacNode) (uiIp : UINT) (bAllocIp : Bool) (memory : MacTblMemory) :
    DhcpsInstance × UINT :=
  if uiIp = 0 then (pstInstance, 0)
  else
    let (hMacTbl, eRet) :=
      mactblAdd pstInstance.hMacTbl memory { stMacTbl with uiFlag := 0 } (some uiIp) .set
    let pstInstance := { pstInstance with hMacTbl := hMacTbl }
    if eRet = .ok then (pstInstance, uiIp)
    else if bAllocIp then
      ({ pstInstance with hIpPool := ippoolFreeIp pstInstance.hIpPool (ntohl uiIp) }, 0)
    else (pstInstance, 0)

def dhcpsGetIp (aucClientHaddr : MacAddr) (uiRequestIp : UINT) (memory : DhcpsMemory) :
    DhcpsInstance × UINT :=
  let (eRet, stMacTbl, stData) := dhcpsFind pstInstance.hMacTbl (macNodeOf aucClientHaddr) 0
  if eRet = .ok ∧ stData ≠ 0 then (pstInstance, stData)
  else
    let (eRet, stMacTbl, stData) := dhcpsFind pstInstance.hSignedMacTbl stMacTbl stData
    if eRet = .ok then dhcpsAddLease pstInstance stMacTbl stData false memory.mac
    else
      let (hIpPool, uiIp) :=
        ippoolAllocIp pstInstance.hIpPool memory.request memory.range (ntohl uiRequestIp)
      dhcpsAddLease { pstInstance with hIpPool := hIpPool } stMacTbl (htonl uiIp) true memory.mac

def dhcpsSendDhcpOffer (aucClientHaddr : MacAddr) (ulRequestIp : UINT) (memory : DhcpsMemory) :
    DhcpsInstance × Option DhcpsReply :=
  let (pstInstance, ulIp) := dhcpsGetIp pstInstance aucClientHaddr ulRequestIp memory
  if ulIp = 0 then (pstInstance, none)
  else (pstInstance, some ⟨dhcpOffer, aucClientHaddr, ulIp⟩)

def dhcpsSendDhcpAck (aucClientHaddr : MacAddr) (ulRequestIp : UINT) (memory : DhcpsMemory) :
    DhcpsInstance × Option DhcpsReply :=
  let (pstInstance, ulIp) := dhcpsGetIp pstInstance aucClientHaddr ulRequestIp memory
  if ulIp = 0 then (pstInstance, none)
  else if ulRequestIp ≠ ulIp then (pstInstance, some ⟨dhcpNack, aucClientHaddr, ulIp⟩)
  else (pstInstance, some ⟨dhcpAck, aucClientHaddr, ulIp⟩)

def dhcpsDealDecline (aucClientHaddr : MacAddr) (uiDeclineIp : UINT) (memory : DhcpsMemory) :
    DhcpsInstance :=
  if (mactblGet pstInstance.hMacTbl (macNodeOf aucClientHaddr) none).1 ≠ .ok then pstInstance
  else
    let pstInstance := dhcpsDelLease pstInstance aucClientHaddr
    { pstInstance with
      hIpPool := ippoolDeny pstInstance.hIpPool memory.request memory.deny (ntohl uiDeclineIp) }

/-- The packet is parsed; it asks for `ulRequestIp`. -/
def dhcpsPktInput (ucOp : UCHAR) (iDhcpMsgType : Int) (aucClientHaddr : MacAddr)
    (ulRequestIp : UINT) (memory : DhcpsMemory) : DhcpsInstance × Option DhcpsReply :=
  if iDhcpMsgType < 0 then (pstInstance, none)
  else if ucOp ≠ dhcpOpRequest then (pstInstance, none)
  else if iDhcpMsgType = dhcpDiscover then
    dhcpsSendDhcpOffer pstInstance aucClientHaddr ulRequestIp memory
  else if iDhcpMsgType = dhcpRequest then
    dhcpsSendDhcpAck pstInstance aucClientHaddr ulRequestIp memory
  else if iDhcpMsgType = dhcpDecline then
    (dhcpsDealDecline pstInstance aucClientHaddr ulRequestIp memory, none)
  else (pstInstance, none)

def dhcpsUnSignIp (pstMacAddr : MacAddr) : DhcpsInstance :=
  let (eRet, stMacNode, stData) := dhcpsFind pstInstance.hSignedMacTbl (macNodeOf pstMacAddr) 0
  if eRet = .ok then
    { pstInstance with
      hIpPool := ippoolFreeIp pstInstance.hIpPool (ntohl stData)
      hSignedMacTbl := mactblDel pstInstance.hSignedMacTbl stMacNode }
  else pstInstance

/-- The end of `DHCPS_SignIP`, after what is signed is taken back as `DHCPS_UnSignIP` does. -/
def dhcpsAddSigned (stMacNode : MacNode) (uiIp : UINT) (memory : MacTblMemory)
    (alloc : NodeAlloc) : DhcpsInstance × BsStatus :=
  let hIpPool := (ippoolAllocSpecIp pstInstance.hIpPool alloc (ntohl uiIp)).1
  let (hSignedMacTbl, eRet) := mactblAdd pstInstance.hSignedMacTbl memory
    { stMacNode with uiFlag := MAC_NODE_FLAG_STATIC } (some uiIp) .set
  let pstInstance := { pstInstance with hSignedMacTbl := hSignedMacTbl }
  if eRet = .ok then ({ pstInstance with hIpPool := hIpPool }, .ok)
  else ({ pstInstance with hIpPool := ippoolFreeIp hIpPool (ntohl uiIp) }, .err)

def dhcpsSignIp (pstMacAddr : MacAddr) (uiIp : UINT) (memory : MacTblMemory) (alloc : NodeAlloc) :
    DhcpsInstance × BsStatus :=
  let (_, stMacNode, _) := dhcpsFind pstInstance.hSignedMacTbl (macNodeOf pstMacAddr) 0
  dhcpsAddSigned (dhcpsUnSignIp pstInstance pstMacAddr) stMacNode uiIp memory alloc

def dhcpsDelClient (pstClientMac : MacAddr) : DhcpsInstance :=
  dhcpsDelLease pstInstance pstClientMac

/-- `mactbl_Old` on the leases. -/
def dhcpsOld (hTimerHandle : NodeId) : DhcpsInstance :=
  match mactblFind pstInstance.hMacTbl (pstInstance.hMacTbl.stUserHandle hTimerHandle) with
  | none => pstInstance
  | some pstMacNode => dhcpsFreeLease pstInstance pstMacNode

end Operations

/-- `mactblFiring` with the notifications. -/
def dhcpsFiring : Nat → DhcpsInstance → DhcpsInstance
  | 0, pstInstance => pstInstance
  | turns + 1, pstInstance =>
    match vclockStepFire pstInstance.hMacTbl.hVclockInstance with
    | none => pstInstance
    | some (hTimerHandle, vclock) =>
      dhcpsFiring turns (dhcpsOld { pstInstance with
        hMacTbl := { pstInstance.hMacTbl with hVclockInstance := vclock } } hTimerHandle)

/-- `MACTBL_TickStep` on the leases. -/
def dhcpsAgeLeases (pstInstance : DhcpsInstance) : DhcpsInstance :=
  let vclock := vclockStepBegin pstInstance.hMacTbl.hVclockInstance
  dhcpsFiring (vclock.stTimerLevel 0 (vclock.ulCurrentLevelTick 0)).length
    { pstInstance with hMacTbl := { pstInstance.hMacTbl with hVclockInstance := vclock } }

def dhcpsTickStep (pstInstance : DhcpsInstance) : DhcpsInstance :=
  let pstInstance := dhcpsAgeLeases pstInstance
  let uiDeclineTick := pstInstance.uiDeclineTick + 1
  if uiDeclineTick ≥ dhcpsDeclineMaxTick then
    { pstInstance with uiDeclineTick := 0, hIpPool := ippoolPermitAll pstInstance.hIpPool }
  else { pstInstance with uiDeclineTick := uiDeclineTick }

end MyCode.Dhcps
