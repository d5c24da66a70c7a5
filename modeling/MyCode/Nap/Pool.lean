import MyCode.Hash
import MyCode.LBitMap.Access

/-!
# Node id pools

The functions of `nap_utl.c` over the tables of `nap_array.c`, `nap_ptr_array.c`
and `nap_hash.c`.  The index that a node is allocated with never changes and is
kept with its address; its `ulID` is memory that the pool writes.
-/

namespace MyCode.Nap

open LBitMap Hash Function

structure NapNode where
  address : Nat
  uiIndex : UINT
  deriving DecidableEq, Repr

def napInvalidId : UINT := 0

def napInvalidIndex : UINT := 0xffffffff

inductive NapTypeE where
  | array
  | ptrArray
  | hash
  deriving DecidableEq, Repr

inductive NapTable where
  | array
  | ptrArray (ppPrtArray : Nat → Option NapNode)
  | hash (hHashTbl : HashS NapNode)

/-- `nap_hash_Index` and `nap_hash_Cmp`. -/
def napHashFuncs : HashFuncs NapNode UINT where
  key := NapNode.uiIndex
  pfHashIndexFunc := id
  pfCmpFunc first second := first - second

structure NapSlots where
  table : NapTable
  asked : List UINT

section Slots

variable (slots : NapSlots)

/-- `address` is what the memory allocation of the table returns.  An array has
its memory from the start. -/
def NapSlots.pfAlloc (address : Option Nat) (uiIndex : UINT) : NapSlots × Option NapNode :=
  let asked := uiIndex :: slots.asked
  let node := address.map fun address => ⟨address, uiIndex⟩
  match slots.table with
  | .array => (⟨.array, asked⟩, some ⟨uiIndex.toNat, uiIndex⟩)
  | .ptrArray ppPrtArray => (⟨.ptrArray (update ppPrtArray uiIndex.toNat node), asked⟩, node)
  | .hash hHashTbl =>
    match node with
    | none => (⟨.hash hHashTbl, asked⟩, none)
    | some node => (⟨.hash (hashAdd napHashFuncs hHashTbl node), asked⟩, some node)

def NapSlots.pfFree (pstNapNode : NapNode) (uiIndex : UINT) : NapSlots :=
  let asked := uiIndex :: slots.asked
  match slots.table with
  | .array => ⟨.array, asked⟩
  | .ptrArray ppPrtArray =>
    if (ppPrtArray uiIndex.toNat).isNone then
      ⟨.ptrArray ppPrtArray, asked⟩
    else
      ⟨.ptrArray (update ppPrtArray uiIndex.toNat none), asked⟩
  | .hash hHashTbl => ⟨.hash (hashDelNode napHashFuncs hHashTbl pstNapNode), asked⟩

def NapTable.getNodeByIndex (uiIndex : UINT) : NapTable → Option NapNode
  | .array => some ⟨uiIndex.toNat, uiIndex⟩
  | .ptrArray ppPrtArray => ppPrtArray uiIndex.toNat
  | .hash hHashTbl => hashFind napHashFuncs hHashTbl uiIndex

def NapSlots.pfGetNodeByIndex (uiIndex : UINT) : NapSlots × Option NapNode :=
  (⟨slots.table, uiIndex :: slots.asked⟩, slots.table.getNodeByIndex uiIndex)

end Slots

structure NapSeqOpt where
  bEnable : Bool
  ulSeqMask : UINT
  ucSeqStartIndex : Nat
  seqArray : Nat → USHORT
  uiSeqArrayCount : UINT

structure NapHead where
  slots : NapSlots
  uiMaxNum : UINT
  uiCount : UINT
  ulIndexMask : UINT
  hLBitmap : LBitMapCtrl
  stSeqOpt : NapSeqOpt
  ulID : NapNode → UINT

structure NapParam where
  enType : NapTypeE
  uiMaxNum : UINT

def prefix2Mask (ucPrefixLen : Nat) : UINT :=
  if ucPrefixLen = 32 then 0xffffffff else ~~~((0xffffffff : UINT) >>> ucPrefixLen)

/-- `_NAP_ArrayCreate`, `_NAP_PtrArrayCreate` and `_NAP_HashCreate`.  The slots of
a pointer array are not cleared. -/
def napTableCreate (p : NapParam) (memory : Nat → Option NapNode) : Option NapTable :=
  match p.enType with
  | .array => if p.uiMaxNum = 0 then none else some .array
  | .ptrArray => if p.uiMaxNum = 0 then none else some (.ptrArray memory)
  | .hash => some (.hash (hashInit (1024 * 16 - 1)))

/-- `needBits` is `NUM_NeedBits`, which the repository does not contain. -/
def napCreate (needBits : UINT → Nat) (memory : Nat → Option NapNode) (ulID : NapNode → UINT)
    (p : NapParam) : Option NapHead :=
  if 0x7fffffff < p.uiMaxNum then
    none
  else
    (napTableCreate p memory).map fun table =>
      let uiMaxNum := if p.uiMaxNum = 0 then 0x7fffffff else p.uiMaxNum
      let ucIndexBits := needBits uiMaxNum
      let ucSpaceBits := 32 - ucIndexBits
      let uiSpaceMask := prefix2Mask ucSpaceBits
      { slots := ⟨table, []⟩
        uiMaxNum := uiMaxNum
        uiCount := 0
        ulIndexMask := ~~~uiSpaceMask
        hLBitmap := lBitMapCreate
        stSeqOpt := ⟨false, 0, 0, fun _ => 0, 0⟩
        ulID := ulID }

section Operations

variable (pstCommonHead : NapHead)

/-- The lowest bit of a mask, 0 if there is none. -/
def napSeqStartIndex (ulSeqMask : UINT) : Nat :=
  ((List.range 32).find? fun i => ulSeqMask.getLsbD i).getD 0

def napSetSeqMask (ulSeqMask : UINT) : NapHead × BsStatus :=
  let ucSeqStartIndex := napSeqStartIndex ulSeqMask
  if ucSeqStartIndex = 0 ∨ ucSeqStartIndex = 63 then
    (pstCommonHead, .badPara)
  else
    ({ pstCommonHead with
      stSeqOpt := { pstCommonHead.stSeqOpt with
        ulSeqMask := ulSeqMask
        ucSeqStartIndex := ucSeqStartIndex } }, .ok)

/-- `seqArray` is what is in the memory of the sequence array, if it can be
allocated.  The pool has none before. -/
def napEnableSeq (seqArray : Option (Nat → USHORT)) (ulSeqMask uiSeqCount : UINT) :
    NapHead × BsStatus :=
  let ulSeqMask := if ulSeqMask = 0 then ~~~pstCommonHead.ulIndexMask &&& 0xffff0000 else ulSeqMask
  if ulSeqMask = 0 then
    (pstCommonHead, .err)
  else if uiSeqCount = 0 then
    (pstCommonHead, .badPara)
  else
    match napSetSeqMask pstCommonHead ulSeqMask with
    | (pstCommonHead, .ok) =>
      match seqArray with
      | none => (pstCommonHead, .noMemory)
      | some seqArray =>
        ({ pstCommonHead with
          stSeqOpt := { pstCommonHead.stSeqOpt with
            bEnable := true
            seqArray := seqArray
            uiSeqArrayCount := uiSeqCount } }, .ok)
    | (pstCommonHead, _) => (pstCommonHead, .err)

def napAllocIndex (alloc : NodeAlloc) : NapHead × UINT :=
  match lBitMapAllocByRange alloc pstCommonHead.hLBitmap 0 0x7fffffff with
  | (hLBitmap, .ok uiIndex) => ({ pstCommonHead with hLBitmap := hLBitmap }, BitVec.ofNat 32 uiIndex)
  | (hLBitmap, .error _) => ({ pstCommonHead with hLBitmap := hLBitmap }, napInvalidIndex)

def napIsIndexSetted (uiIndex : UINT) : Bool :=
  lBitMapIsBitSetted 3 pstCommonHead.hLBitmap uiIndex.toNat

def napAllocSpecIndex (alloc : NodeAlloc) (uiSpecIndex : UINT) : NapHead × UINT :=
  if napIsIndexSetted pstCommonHead uiSpecIndex then
    (pstCommonHead, napInvalidIndex)
  else
    match lBitMapSetBit alloc pstCommonHead.hLBitmap uiSpecIndex.toNat with
    | (hLBitmap, .ok) => ({ pstCommonHead with hLBitmap := hLBitmap }, uiSpecIndex)
    | (hLBitmap, _) => ({ pstCommonHead with hLBitmap := hLBitmap }, napInvalidIndex)

def napFreeIndex (uiIndex : UINT) : NapHead :=
  { pstCommonHead with hLBitmap := lBitMapClrBit pstCommonHead.hLBitmap uiIndex.toNat }

/-- The identifier of an index at a value of its sequence counter. -/
def napIdOf (stSeqOpt : NapSeqOpt) (uiIndex : UINT) (seq : USHORT) : UINT :=
  let ulTmp := seq.setWidth 32 <<< stSeqOpt.ucSeqStartIndex &&& stSeqOpt.ulSeqMask
  (uiIndex &&& ~~~stSeqOpt.ulSeqMask ||| ulTmp) ||| 0x80000000

def napSeqPos (stSeqOpt : NapSeqOpt) (uiIndex : UINT) : Nat :=
  (uiIndex % stSeqOpt.uiSeqArrayCount).toNat

def napCacleIDByIndex (uiIndex : UINT) : NapHead × UINT :=
  let stSeqOpt := pstCommonHead.stSeqOpt
  if stSeqOpt.bEnable then
    let uiPos := napSeqPos stSeqOpt uiIndex
    let ulTmp := stSeqOpt.seqArray uiPos
    ({ pstCommonHead with
      stSeqOpt := { stSeqOpt with
        seqArray := update stSeqOpt.seqArray uiPos (ulTmp + 1) } },
      napIdOf stSeqOpt uiIndex ulTmp)
  else
    (pstCommonHead, uiIndex ||| 0x80000000)

def napCacleIndexByID (ulID : UINT) : UINT :=
  ulID &&& pstCommonHead.ulIndexMask

/-- What the allocating functions do with the index that they got; `id` gives the
identifier of the node. -/
def napAllocNode (address : Option Nat) (uiIndex : UINT)
    (id : NapHead → NapHead × UINT) : NapHead × Option NapNode :=
  match pstCommonHead.slots.pfAlloc address uiIndex with
  | (slots, none) => (napFreeIndex { pstCommonHead with slots := slots } uiIndex, none)
  | (slots, some pstCommonNode) =>
    let (pstCommonHead, ulID) := id { pstCommonHead with slots := slots }
    ({ pstCommonHead with ulID := update pstCommonHead.ulID pstCommonNode ulID },
      some pstCommonNode)

/-- `uiCount ++`, where there is a node. -/
def napCountNode : NapHead × Option NapNode → NapHead × Option NapNode
  | (pstCommonHead, none) => (pstCommonHead, none)
  | (pstCommonHead, some pstNode) =>
    ({ pstCommonHead with uiCount := pstCommonHead.uiCount + 1 }, some pstNode)

def napAlloc (alloc : NodeAlloc) (address : Option Nat) : NapHead × Option NapNode :=
  let (pstCommonHead, uiIndex) := napAllocIndex pstCommonHead alloc
  if uiIndex = napInvalidIndex then
    (pstCommonHead, none)
  else
    napCountNode (napAllocNode pstCommonHead address uiIndex fun pstCommonHead =>
      napCacleIDByIndex pstCommonHead uiIndex)

def napAllocByIndex (alloc : NodeAlloc) (address : Option Nat) (uiSpecIndex : UINT) :
    NapHead × Option NapNode :=
  if uiSpecIndex = napInvalidId then
    napAlloc pstCommonHead alloc address
  else
    let (pstCommonHead, uiIndex) := napAllocSpecIndex pstCommonHead alloc uiSpecIndex
    if uiIndex = napInvalidIndex then
      (pstCommonHead, none)
    else
      napCountNode (napAllocNode pstCommonHead address uiIndex fun pstCommonHead =>
        napCacleIDByIndex pstCommonHead uiIndex)

/-- The nodes of `NAP_AllocByID` are not counted. -/
def napAllocByID (alloc : NodeAlloc) (address : Option Nat) (ulSpecID : UINT) :
    NapHead × Option NapNode :=
  if ulSpecID = napInvalidId then
    napAlloc pstCommonHead alloc address
  else
    let uiSpecIndex := napCacleIndexByID pstCommonHead ulSpecID
    let (pstCommonHead, uiIndex) := napAllocSpecIndex pstCommonHead alloc uiSpecIndex
    if uiIndex = napInvalidIndex then
      (pstCommonHead, none)
    else
      napAllocNode pstCommonHead address uiIndex fun pstCommonHead => (pstCommonHead, ulSpecID)

def napFree (pstNode : NapNode) : NapHead :=
  let uiIndex := napCacleIndexByID pstCommonHead (pstCommonHead.ulID pstNode)
  let pstCommonHead := napFreeIndex pstCommonHead uiIndex
  { pstCommonHead with
    slots := pstCommonHead.slots.pfFree pstNode uiIndex
    uiCount := pstCommonHead.uiCount - 1 }

def napGetNodeByID (ulID : UINT) : NapHead × Option NapNode :=
  if ulID = napInvalidId then
    (pstCommonHead, none)
  else
    let uiIndex := napCacleIndexByID pstCommonHead ulID
    if !napIsIndexSetted pstCommonHead uiIndex then
      (pstCommonHead, none)
    else
      match pstCommonHead.slots.pfGetNodeByIndex uiIndex with
      | (slots, none) => ({ pstCommonHead with slots := slots }, none)
      | (slots, some pstCommonNode) =>
        ({ pstCommonHead with slots := slots },
          if pstCommonHead.ulID pstCommonNode ≠ ulID then none else some pstCommonNode)

end Operations

end MyCode.Nap
