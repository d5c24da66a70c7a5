import MyCode.LBitMap.Access
import MyCode.Lib.Transition

/-!
# IP pools

The functions of `ippool_utl.c` on a list of ranges and two large bitmaps.
Allocated and denied addresses share the bits of the first bitmap.
-/

namespace MyCode.IpPool

open LBitMap Function

structure IpListNode where
  uiBeginIp : UINT
  uiEndIp : UINT
  deriving DecidableEq, Repr

structure IpPoolS where
  stIpList : List IpListNode
  hUsedOrDenyBitmap : LBitMapCtrl
  hDenyBitmap : LBitMapCtrl

def ipListIsIpInTheList (pstList : List IpListNode) (uiIp : UINT) : Bool :=
  pstList.any fun node => node.uiBeginIp ≤ uiIp && uiIp ≤ node.uiEndIp

def ipListAddRange (nodeAlloc : Bool) (pstList : List IpListNode) (uiBeginIp uiEndIp : UINT) :
    List IpListNode × BsStatus :=
  if nodeAlloc then (pstList ++ [⟨uiBeginIp, uiEndIp⟩], .ok) else (pstList, .noMemory)

def ippoolCreate : IpPoolS :=
  ⟨[], lBitMapCreate, lBitMapCreate⟩

/-- `alloc` is asked anew for each range. -/
def ippoolGetFreeIp : (Nat → NodeAlloc) → List IpListNode → LBitMapCtrl → LBitMapCtrl × UINT
  | _, [], bitmap => (bitmap, 0)
  | alloc, node :: nodes, bitmap =>
    match lBitMapAllocByRange (alloc 0) bitmap node.uiBeginIp.toNat node.uiEndIp.toNat with
    | (bitmap, .ok uiIp) => (bitmap, BitVec.ofNat 32 uiIp)
    | (bitmap, .error _) => ippoolGetFreeIp (fun k => alloc (k + 1)) nodes bitmap

section Operations

variable (pstIpPool : IpPoolS)

def ippoolIsBusy (uiIp : UINT) : Bool :=
  lBitMapIsBitSetted 3 pstIpPool.hUsedOrDenyBitmap uiIp.toNat

def ippoolIsDenied (uiIp : UINT) : Bool :=
  lBitMapIsBitSetted 3 pstIpPool.hDenyBitmap uiIp.toNat

def ippoolSetBusy (alloc : NodeAlloc) (uiIp : UINT) : IpPoolS :=
  { pstIpPool with
    hUsedOrDenyBitmap := (lBitMapSetBit alloc pstIpPool.hUsedOrDenyBitmap uiIp.toNat).1 }

def ippoolClrBusy (uiIp : UINT) : IpPoolS :=
  { pstIpPool with hUsedOrDenyBitmap := lBitMapClrBit pstIpPool.hUsedOrDenyBitmap uiIp.toNat }

def ippoolAddRange (nodeAlloc : Bool) (uiBeginIp uiEndIp : UINT) : IpPoolS × BsStatus :=
  let (stIpList, eRet) := ipListAddRange nodeAlloc pstIpPool.stIpList uiBeginIp uiEndIp
  ({ pstIpPool with stIpList := stIpList }, eRet)

def ippoolAllocIp (requestAlloc : NodeAlloc) (alloc : Nat → NodeAlloc) (uiRequestIp : UINT) :
    IpPoolS × UINT :=
  if uiRequestIp ≠ 0 ∧ ipListIsIpInTheList pstIpPool.stIpList uiRequestIp = true ∧
      ippoolIsBusy pstIpPool uiRequestIp = false then
    (ippoolSetBusy pstIpPool requestAlloc uiRequestIp, uiRequestIp)
  else
    let (bitmap, uiIp) := ippoolGetFreeIp alloc pstIpPool.stIpList pstIpPool.hUsedOrDenyBitmap
    ({ pstIpPool with hUsedOrDenyBitmap := bitmap }, uiIp)

def ippoolAllocSpecIp (alloc : NodeAlloc) (uiSpecIp : UINT) : IpPoolS × BsStatus :=
  if uiSpecIp = 0 then
    (pstIpPool, .err)
  else if ipListIsIpInTheList pstIpPool.stIpList uiSpecIp ≠ true then
    (pstIpPool, .outOfRange)
  else if ippoolIsBusy pstIpPool uiSpecIp = true then
    (pstIpPool, .alreadyExist)
  else
    (ippoolSetBusy pstIpPool alloc uiSpecIp, .ok)

def ippoolFreeIp (uiIp : UINT) : IpPoolS :=
  ippoolClrBusy pstIpPool uiIp

def ippoolDeny (alloc denyAlloc : NodeAlloc) (uiDenyIp : UINT) : IpPoolS :=
  let pstIpPool := ippoolSetBusy pstIpPool alloc uiDenyIp
  { pstIpPool with
    hDenyBitmap := (lBitMapSetBit denyAlloc pstIpPool.hDenyBitmap uiDenyIp.toNat).1 }

def ippoolPermit (uiIp : UINT) : IpPoolS :=
  if ippoolIsDenied pstIpPool uiIp then
    { ippoolClrBusy pstIpPool uiIp with
      hDenyBitmap := lBitMapClrBit pstIpPool.hDenyBitmap uiIp.toNat }
  else
    pstIpPool

end Operations

/-- A pool with the addresses that its callers hold and have denied. -/
structure IpPoolUse where
  pool : IpPoolS
  held : UINT → Bool
  denied : UINT → Bool

inductive IpPoolCall where
  | addRange (nodeAlloc : Bool) (uiBeginIp uiEndIp : UINT)
  | deny (alloc denyAlloc : NodeAlloc) (uiDenyIp : UINT)
  | permit (uiIp : UINT)
  | allocIp (requestAlloc : NodeAlloc) (alloc : Nat → NodeAlloc) (uiRequestIp : UINT)
  | allocSpecIp (alloc : NodeAlloc) (uiSpecIp : UINT)
  | freeIp (uiIp : UINT)

def IpPoolCall.run (use : IpPoolUse) : IpPoolCall → IpPoolUse
  | addRange nodeAlloc uiBeginIp uiEndIp =>
    { use with pool := (ippoolAddRange use.pool nodeAlloc uiBeginIp uiEndIp).1 }
  | deny alloc denyAlloc uiDenyIp =>
    { use with
      pool := ippoolDeny use.pool alloc denyAlloc uiDenyIp
      denied := update use.denied uiDenyIp true }
  | permit uiIp =>
    { use with
      pool := ippoolPermit use.pool uiIp
      denied := update use.denied uiIp false }
  | allocIp requestAlloc alloc uiRequestIp =>
    let (pool, uiIp) := ippoolAllocIp use.pool requestAlloc alloc uiRequestIp
    -- The address 0 says that none is handed out.
    if uiIp = 0 then
      { use with pool := pool }
    else
      { use with pool := pool, held := update use.held uiIp true }
  | allocSpecIp alloc uiSpecIp =>
    let (pool, eRet) := ippoolAllocSpecIp use.pool alloc uiSpecIp
    if eRet = .ok then
      { use with pool := pool, held := update use.held uiSpecIp true }
    else
      { use with pool := pool }
  | freeIp uiIp =>
    { use with
      pool := ippoolFreeIp use.pool uiIp
      held := update use.held uiIp false }

def ippoolStart : IpPoolUse :=
  ⟨ippoolCreate, fun _ => false, fun _ => false⟩

def ippool : Lib.System IpPoolUse IpPoolCall where
  start use := use = ippoolStart
  step use call after := after = call.run use

end MyCode.IpPool
