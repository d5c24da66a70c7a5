import MyCode.Hash
import MyCode.Vclock.Resume

/-!
# MAC tables

The tables of `mac_table.c`: a hash table of nodes by address, with a timer for
every dynamic node.  `Data` is what fits into `uiUserDataSize` bytes.
-/

namespace MyCode.MacTable

open Hash Vclock

def MAC_NODE_FLAG_STATIC : UINT := 0x1

structure MacAddr where
  aucMac : Vector UCHAR 6
  deriving DecidableEq

structure MacNode where
  stMac : MacAddr
  uiFlag : UINT
  uiPRI : UINT
  deriving DecidableEq

inductive MacNodeMode where
  | set
  | learn
  deriving DecidableEq

structure MacTblNode (Data : Type) where
  hVclock : Option NodeId
  stMacNode : MacNode
  pUserData : Option Data

/-- `stUserHandle` of a timer names the node by its address. -/
structure MacTbl (Data : Type) where
  hHashId : HashS (MacTblNode Data)
  uiOldTick : UINT
  uiUserDataSize : UINT
  hVclockInstance : VclockInstance
  stUserHandle : NodeId → MacAddr

/-- Which of the allocations of one call succeed, and where the timer is allocated. -/
structure MacTblMemory where
  node : Bool
  userData : Bool
  timer : Option NodeId

def MACTBL_HASH_BUCKET_NUM : UINT := 128

/-- The loop of `mactbl_GetHashIndexFromMac`, two bytes at a time. -/
def mactblSumBytes : List UCHAR → UINT
  | high :: low :: rest => (high.setWidth 32 <<< 8) + low.setWidth 32 + mactblSumBytes rest
  | _ => 0

def mactblGetHashIndexFromMac (stMac : MacAddr) : UINT :=
  mactblSumBytes stMac.aucMac.toList

/-- The difference of the first two bytes that differ. -/
def mactblCmpNode (mac1 mac2 : MacAddr) : UINT :=
  memCmp mac1.aucMac.toList mac2.aucMac.toList

section Operations

variable {Data : Type}

def mactblHashFuncs : HashFuncs (MacTblNode Data) MacAddr where
  key node := node.stMacNode.stMac
  pfHashIndexFunc := mactblGetHashIndexFromMac
  pfCmpFunc := mactblCmpNode

def mactblCreateInstance (uiUserDataSize : UINT) : MacTbl Data :=
  ⟨hashInit (MACTBL_HASH_BUCKET_NUM - 1), 0, uiUserDataSize, vclockInitInstance,
    fun _ => ⟨Vector.replicate 6 0⟩⟩

variable (mactbl : MacTbl Data)

def mactblSetOldTick (old_tick : UINT) : MacTbl Data :=
  { mactbl with uiOldTick := old_tick }

def mactblFind (stMac : MacAddr) : Option (MacTblNode Data) :=
  hashFind mactblHashFuncs mactbl.hHashId stMac

/-- Writing to the node that `mactbl_Find` returns. -/
def mactblWrite (stMac : MacAddr) (change : MacTblNode Data → MacTblNode Data) : MacTbl Data :=
  { mactbl with hHashId := hashUpdate mactblHashFuncs mactbl.hHashId stMac change }

def mactblFree (pstMacNode : MacTblNode Data) : MacTbl Data :=
  let mactbl := { mactbl with
    hHashId := hashDel mactblHashFuncs mactbl.hHashId pstMacNode.stMacNode.stMac }
  match pstMacNode.hVclock with
  | none => mactbl
  | some hVclock => { mactbl with hVclockInstance := vclockDelTimer mactbl.hVclockInstance hVclock }

def mactblOld (hTimerHandle : NodeId) : MacTbl Data :=
  match mactblFind mactbl (mactbl.stUserHandle hTimerHandle) with
  | none => mactbl
  | some pstMacNode => mactblFree mactbl pstMacNode

/-- What is in the node and in the buffer afterwards; a missing buffer is `NULL`. -/
def mactblCopyMacNode (pstMacNodeSrc : MacNode) (pUserDataIn pUserDataOut : Option Data) :
    MacNode × Option Data :=
  (pstMacNodeSrc, pUserDataOut.map fun out => pUserDataIn.getD out)

def mactblLearn (pstMacNode : MacNode) (pUserData : Option Data) (node : MacTblNode Data) :
    MacTblNode Data :=
  let (stMacNode, pUserData) := mactblCopyMacNode pstMacNode pUserData node.pUserData
  { node with stMacNode := stMacNode, pUserData := pUserData }

def MacNode.isStatic (node : MacNode) : Bool :=
  node.uiFlag &&& MAC_NODE_FLAG_STATIC ≠ 0

/-- The end of `MACTBL_Add`, which starts, refreshes or destroys the timer of the node. -/
def mactblAddTimer (timer : Option NodeId) (pstMacTblNode : MacTblNode Data) :
    MacTbl Data × BsStatus :=
  let stMac := pstMacTblNode.stMacNode.stMac
  if pstMacTblNode.stMacNode.isStatic = false then
    match pstMacTblNode.hVclock with
    | none =>
      match timer with
      | none => (mactblFree mactbl pstMacTblNode, .err)
      | some hVclock =>
        ({ mactblWrite mactbl stMac fun node => { node with hVclock := some hVclock } with
          hVclockInstance := vclockAddTimer mactbl.hVclockInstance hVclock mactbl.uiOldTick
            mactbl.uiOldTick timerFlagCycle
          stUserHandle := Function.update mactbl.stUserHandle hVclock stMac }, .ok)
    | some hVclock =>
      ({ mactbl with hVclockInstance := vclockRefresh mactbl.hVclockInstance hVclock }, .ok)
  else
    match pstMacTblNode.hVclock with
    | none => (mactbl, .ok)
    | some hVclock =>
      ({ mactblWrite mactbl stMac fun node => { node with hVclock := none } with
        hVclockInstance := vclockDelTimer mactbl.hVclockInstance hVclock }, .ok)

def mactblAddTo (timer : Option NodeId) (pstMacNode : MacNode) (pUserData : Option Data)
    (bLearn : Bool) (pstMacTblNode : MacTblNode Data) : MacTbl Data × BsStatus :=
  if bLearn then
    mactblAddTimer (mactblWrite mactbl pstMacNode.stMac (mactblLearn pstMacNode pUserData)) timer
      (mactblLearn pstMacNode pUserData pstMacTblNode)
  else
    mactblAddTimer mactbl timer pstMacTblNode

def mactblAdd (memory : MacTblMemory) (pstMacNode : MacNode) (pUserData : Option Data)
    (eMode : MacNodeMode) : MacTbl Data × BsStatus :=
  match mactblFind mactbl pstMacNode.stMac with
  | none =>
    if memory.node = false then
      (mactbl, .noMemory)
    else if mactbl.uiUserDataSize ≠ 0 ∧ pUserData.isSome ∧ memory.userData = false then
      (mactbl, .noMemory)
    else
      -- Memory for user data is there when user data is, which is copied next.
      let pUserDataTmp := if mactbl.uiUserDataSize ≠ 0 then pUserData else none
      let pstMacTblNode : MacTblNode Data := ⟨none, pstMacNode, pUserDataTmp⟩
      mactblAddTo { mactbl with hHashId := hashAdd mactblHashFuncs mactbl.hHashId pstMacTblNode }
        memory.timer pstMacNode pUserData true pstMacTblNode
  | some pstMacTblNode =>
    mactblAddTo mactbl memory.timer pstMacNode pUserData
      (eMode = .set ∨ pstMacTblNode.stMacNode.uiPRI ≤ pstMacNode.uiPRI) pstMacTblNode

def mactblDel (pstMacNode : MacNode) : MacTbl Data :=
  match mactblFind mactbl pstMacNode.stMac with
  | none => mactbl
  | some pstMacTblNode => mactblFree mactbl pstMacTblNode

/-- `MACTBL_Find`: the result, and what is in the node and the buffer of the caller. -/
def mactblGet (pstMacNode : MacNode) (pUserData : Option Data) :
    BsStatus × MacNode × Option Data :=
  match mactblFind mactbl pstMacNode.stMac with
  | none => (.noSuch, pstMacNode, pUserData)
  | some pstHashNode =>
    (.ok, mactblCopyMacNode pstHashNode.stMacNode pstHashNode.pUserData pUserData)

end Operations

/-- The firing loop of `VCLOCK_Step`, for at most `turns` turns. -/
def mactblFiring {Data : Type} : Nat → MacTbl Data → MacTbl Data
  | 0, mactbl => mactbl
  | turns + 1, mactbl =>
    match vclockStepFire mactbl.hVclockInstance with
    | none => mactbl
    | some (hTimerHandle, vclock) =>
      mactblFiring turns (mactblOld { mactbl with hVclockInstance := vclock } hTimerHandle)

def mactblTickStep {Data : Type} (mactbl : MacTbl Data) : MacTbl Data :=
  let vclock := vclockStepBegin mactbl.hVclockInstance
  mactblFiring (vclock.stTimerLevel 0 (vclock.ulCurrentLevelTick 0)).length
    { mactbl with hVclockInstance := vclock }

end MyCode.MacTable
