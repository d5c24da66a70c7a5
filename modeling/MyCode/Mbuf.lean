import MyCode.Types
import MyCode.Lib.Block

/-!
# Chains of blocks of data

`mbuf/mbuf_utl.c` and `h/utl/mbuf_utl.h`.  The data of an mbuf is what the windows of its
blocks hold, in the order of the list.  Numbers are below 2^32 where the code keeps them in a
`UINT`.  Memory is there when it is asked for and holds anything; `none` is an access outside
a cluster or a pointer that leaves it.
-/

namespace MyCode.Mbuf

open Lib

/-- `_MBUF_POOL_DFT_CLUSTER_SIZE`. -/
def CLUSTER_SIZE : Nat := 2048

/-- `_MBUF_NEAT_LEN`. -/
def NEAT_LEN : Nat := 512

/-- The difference of two `UINT`. -/
def uintSub (first second : Nat) : Nat :=
  (first + (2 ^ 32 - second)) % 2 ^ 32

/-- `ulSize` is the size of the block. -/
structure MbufClusterS where
  ulRefCnt : Nat
  pucData : Block UCHAR

def MbufClusterS.ulSize (cluster : MbufClusterS) : Nat :=
  cluster.pucData.size

/-- `pucData` is so far behind the start of the cluster: `MBUF_DATABLOCK_HEAD_FREE_LEN`. -/
structure MbufMblkS where
  headFree : Nat
  ulLen : Nat
  pstCluster : MbufClusterS

structure MbufS where
  stMblkHead : List MbufMblkS
  ulTotalDataLen : Nat

abbrev Memory := Nat → UCHAR

/-- The bytes a caller hands over; their number is a `UINT`. -/
abbrev Buf := { bytes : List UCHAR // bytes.length < 2 ^ 32 }

/-- `MBUF_DATABLOCK_TAIL_FREE_LEN`. -/
def MbufMblkS.tailFree (mblk : MbufMblkS) : Nat :=
  uintSub (uintSub mblk.pstCluster.ulSize mblk.headFree) mblk.ulLen

/-- The contents of the cluster change, and what lies in the window with them. -/
def MbufMblkS.holding (mblk : MbufMblkS) (pucData : Block UCHAR) : MbufMblkS :=
  { mblk with pstCluster := { mblk.pstCluster with pucData := pucData } }

def MbufMblkS.behind (mblk : MbufMblkS) (ulLen : Nat) : MbufMblkS :=
  { mblk with headFree := mblk.headFree + ulLen, ulLen := mblk.ulLen - ulLen }

/-- Copy from a buffer to a place in the data of a block. -/
def MbufMblkS.write (mblk : MbufMblkS) (offset : Nat) (buf : List UCHAR) (count : Nat) :
    Option MbufMblkS := do
  let pucData ←
    mblk.pstCluster.pucData.copyIn (mblk.headFree + offset) (fun i => buf.getD i 0) count
  some (mblk.holding pucData)

/-- Copy from the data of a block behind that of another one, whose window grows. -/
def MbufMblkS.take (mblk next : MbufMblkS) (count : Nat) : Option MbufMblkS := do
  let pucData ← mblk.pstCluster.pucData.transfer (mblk.headFree + mblk.ulLen)
    next.pstCluster.pucData next.headFree count
  some { mblk.holding pucData with ulLen := mblk.ulLen + count }

variable (memory : Memory)

def mbufCreateCluster : MbufClusterS :=
  ⟨1, ⟨CLUSTER_SIZE, memory⟩⟩

def mbufCreate (ulHeadSpaceLen : Nat) : Option MbufS :=
  if ulHeadSpaceLen > CLUSTER_SIZE then
    none
  else
    some ⟨[⟨ulHeadSpaceLen, 0, mbufCreateCluster memory⟩], 0⟩

def mbufCreateMblkByCopyBuf (buf : List UCHAR) (ulReservrdHeadSpace : Nat) : Option MbufMblkS :=
  let ulReservrdHeadSpace := if ulReservrdHeadSpace ≥ CLUSTER_SIZE then 0 else ulReservrdHeadSpace
  let ulLenCopy := min (CLUSTER_SIZE - ulReservrdHeadSpace) buf.length
  (MbufMblkS.mk ulReservrdHeadSpace ulLenCopy (mbufCreateCluster memory)).write 0 buf ulLenCopy

/-- The loops that put a buffer into new blocks; a round takes at least one byte. -/
def copyBlocks : Nat → List UCHAR → Nat → Option (List MbufMblkS)
  | _, [], _ => some []
  | 0, _ :: _, _ => none
  | fuel + 1, buf, ulReserveHeadSpace => do
      let pstMblk ← mbufCreateMblkByCopyBuf memory buf ulReserveHeadSpace
      let blocks ← copyBlocks fuel (buf.drop pstMblk.ulLen) 0
      some (pstMblk :: blocks)

def mbufCreateByCopyBuf (ulReserveHeadSpace : Nat) (buf : List UCHAR) : Option MbufS := do
  let blocks ← copyBlocks memory buf.length buf ulReserveHeadSpace
  some ⟨blocks, buf.length⟩

/-- The window is the caller's; its cluster comes from `MBUF_CreateCluster`. -/
def mbufCreateByCluster (ulReserveHeadSpace ulLen : Nat) : MbufS :=
  ⟨[⟨ulReserveHeadSpace, ulLen, mbufCreateCluster memory⟩], ulLen⟩

def mbufAddCluster (pstMbufDst : MbufS) (ulOffset ulDataLen : Nat) : MbufS :=
  ⟨pstMbufDst.stMblkHead ++ [⟨ulOffset, ulDataLen, mbufCreateCluster memory⟩],
    (pstMbufDst.ulTotalDataLen + ulDataLen) % 2 ^ 32⟩

/-- The new blocks go to one end, one after another. -/
def mbufPendLoop (ulLenTmp : Nat) (bPendToHead : Bool) (blocks : List MbufMblkS) :
    List MbufMblkS :=
  let pend := fun pstMblk => if bPendToHead then pstMblk :: blocks else blocks ++ [pstMblk]
  if ulLenTmp = 0 then
    blocks
  else if ulLenTmp ≤ CLUSTER_SIZE then
    pend ⟨CLUSTER_SIZE - ulLenTmp, ulLenTmp, mbufCreateCluster memory⟩
  else
    mbufPendLoop (ulLenTmp - CLUSTER_SIZE) bPendToHead
      (pend ⟨0, CLUSTER_SIZE, mbufCreateCluster memory⟩)
termination_by ulLenTmp
decreasing_by
  simp only [CLUSTER_SIZE] at *
  omega

def mbufPendBlock (mbuf : MbufS) (ulLen : Nat) (bPendToHead : Bool) : MbufS :=
  ⟨mbufPendLoop memory ulLen bPendToHead mbuf.stMblkHead, (mbuf.ulTotalDataLen + ulLen) % 2 ^ 32⟩

def mbufApppendBlock (mbuf : MbufS) (ulLen : Nat) : MbufS :=
  mbufPendBlock memory mbuf ulLen false

def mbufPrependBlock (mbuf : MbufS) (ulLen : Nat) : MbufS :=
  mbufPendBlock memory mbuf ulLen true

/-- The room behind the first block is used, whatever comes after it. -/
def mbufAppend (mbuf : MbufS) (ulLen : Nat) : MbufS :=
  match mbuf.stMblkHead with
  | [] => mbufApppendBlock memory mbuf ulLen
  | pstMblk :: rest =>
    if pstMblk.tailFree < ulLen then
      mbufApppendBlock memory mbuf ulLen
    else
      ⟨{ pstMblk with ulLen := pstMblk.ulLen + ulLen } :: rest,
        (mbuf.ulTotalDataLen + ulLen) % 2 ^ 32⟩

def mbufPrepend (mbuf : MbufS) (ulLen : Nat) : MbufS :=
  match mbuf.stMblkHead with
  | [] => mbufPrependBlock memory mbuf ulLen
  | pstMblk :: rest =>
    if pstMblk.headFree < ulLen then
      mbufPrependBlock memory mbuf ulLen
    else
      ⟨{ pstMblk with
          headFree := pstMblk.headFree - ulLen, ulLen := pstMblk.ulLen + ulLen } :: rest,
        (mbuf.ulTotalDataLen + ulLen) % 2 ^ 32⟩

/-- The scan over the blocks gives them, the number of bytes behind the last one, and the
bytes that are left. -/
def copyLoop : List MbufMblkS → Nat → List UCHAR → Option (List MbufMblkS × Nat × List UCHAR)
  | [], _, buf => some ([], 0, buf)
  | pstMblk :: rest, ulOffsetRev, buf =>
    if buf = [] then
      some (pstMblk :: rest, 0, [])
    else if ulOffsetRev > pstMblk.ulLen then do
      let (blocks, ulGrown, left) ← copyLoop rest (ulOffsetRev - pstMblk.ulLen) buf
      some (pstMblk :: blocks, ulGrown, left)
    else do
      let ulCopyLen := min buf.length (pstMblk.ulLen - ulOffsetRev)
      let pstMblk ← pstMblk.write ulOffsetRev buf ulCopyLen
      let buf := buf.drop ulCopyLen
      if buf ≠ [] ∧ rest = [] then do
        let ulCopyLen := min buf.length pstMblk.tailFree
        let pstMblk ← pstMblk.write pstMblk.ulLen buf ulCopyLen
        some ([{ pstMblk with ulLen := pstMblk.ulLen + ulCopyLen }], ulCopyLen,
          buf.drop ulCopyLen)
      else do
        let (blocks, ulGrown, left) ← copyLoop rest 0 buf
        some (pstMblk :: blocks, ulGrown, left)

def mbufCopyFromBufToMbuf (mbuf : MbufS) (ulOffset : Nat) (buf : List UCHAR) :
    Option (MbufS × BsStatus) :=
  if buf.length = 0 then
    some (mbuf, .badPara)
  else if ulOffset > mbuf.ulTotalDataLen then
    some (mbuf, .notSupport)
  else do
    let (blocks, ulGrown, left) ← copyLoop mbuf.stMblkHead ulOffset buf
    let more ← copyBlocks memory left.length left 0
    let ulTotalDataLen := more.foldl (fun total pstMblk => (total + pstMblk.ulLen) % 2 ^ 32)
      ((mbuf.ulTotalDataLen + ulGrown) % 2 ^ 32)
    some (⟨blocks ++ more, ulTotalDataLen⟩, .ok)

def mbufAppendData (mbuf : MbufS) (buf : List UCHAR) : Option (MbufS × BsStatus) :=
  mbufCopyFromBufToMbuf memory mbuf mbuf.ulTotalDataLen buf

def mbufPrependData (mbuf : MbufS) (buf : List UCHAR) : Option (MbufS × BsStatus) :=
  mbufCopyFromBufToMbuf memory (mbufPrepend memory mbuf buf.length) 0 buf

/-- The front of a block in a new one, and what is left.  NULL for a whole block is used by
its callers as a block. -/
def mbufMblkFragment (pstMblk : MbufMblkS) (ulLen : Nat) : Option (MbufMblkS × MbufMblkS) :=
  if ulLen ≥ pstMblk.ulLen then
    none
  else do
    let pstCluster := mbufCreateCluster memory
    let headFree := pstCluster.ulSize - ulLen
    let pucData ← pstCluster.pucData.transfer headFree pstMblk.pstCluster.pucData
      pstMblk.headFree ulLen
    some ((MbufMblkS.mk headFree ulLen pstCluster).holding pucData, pstMblk.behind ulLen)

/-- The buffer goes in front of the data of a block. -/
def insertFront (pstMblk : MbufMblkS) (buf : List UCHAR) : Option (List MbufMblkS) :=
  if buf.length ≤ pstMblk.headFree then do
    let pstMblk : MbufMblkS :=
      { pstMblk with
        headFree := pstMblk.headFree - buf.length, ulLen := pstMblk.ulLen + buf.length }
    let pstMblk ← pstMblk.write 0 buf buf.length
    some [pstMblk]
  else do
    let blocks ← copyBlocks memory buf.length buf 0
    some (blocks ++ [pstMblk])

/-- After a block was cut in two the scan goes on with its second part. -/
def insertLoop (buf : List UCHAR) : List MbufMblkS → Nat → Option (List MbufMblkS)
  | [], _ => some []
  | pstMblk :: rest, ulOffsetRev =>
    if ulOffsetRev ≥ pstMblk.ulLen then do
      let blocks ← insertLoop buf rest (ulOffsetRev - pstMblk.ulLen)
      some (pstMblk :: blocks)
    else if ulOffsetRev ≠ 0 then do
      let (pstMblkTmp, pstMblk) ← mbufMblkFragment memory pstMblk ulOffsetRev
      let blocks ← insertFront memory pstMblk buf
      some (pstMblkTmp :: (blocks ++ rest))
    else do
      let blocks ← insertFront memory pstMblk buf
      some (blocks ++ rest)

def mbufInsertBuf (mbuf : MbufS) (ulOffset : Nat) (buf : List UCHAR) :
    Option (MbufS × BsStatus) :=
  if buf.length = 0 then
    some (mbuf, .badPara)
  else if ulOffset > mbuf.ulTotalDataLen then
    some (mbuf, .notSupport)
  else do
    let blocks ← insertLoop memory buf mbuf.stMblkHead ulOffset
    some (⟨blocks, (mbuf.ulTotalDataLen + buf.length) % 2 ^ 32⟩, .ok)

/-- The bytes that a scan over the blocks puts into the buffer. -/
def copyOutLoop : List MbufMblkS → Nat → Nat → Option (List UCHAR)
  | [], _, _ => some []
  | pstMblk :: rest, ulOffset, ulLenRev =>
    if ulOffset ≥ pstMblk.ulLen then
      copyOutLoop rest (ulOffset - pstMblk.ulLen) ulLenRev
    else do
      let ulCopyLenThis := min ulLenRev (pstMblk.ulLen - ulOffset)
      let bytes ← pstMblk.pstCluster.pucData.copyOut (pstMblk.headFree + ulOffset) ulCopyLenThis
      if ulLenRev - ulCopyLenThis = 0 then
        some bytes
      else do
        let more ← copyOutLoop rest 0 (ulLenRev - ulCopyLenThis)
        some (bytes ++ more)

def mbufCopyFromMbufToBuf (mbuf : MbufS) (ulOffset ulLen : Nat) :
    Option (List UCHAR × BsStatus) :=
  if (ulOffset + ulLen) % 2 ^ 32 > mbuf.ulTotalDataLen then
    some ([], .noSuch)
  else do
    let bytes ← copyOutLoop mbuf.stMblkHead ulOffset ulLen
    some (bytes, .ok)

def cutHeadLoop : List MbufMblkS → Nat → List MbufMblkS
  | [], _ => []
  | pstMblk :: rest, ulLen =>
    if pstMblk.ulLen ≤ ulLen then
      if ulLen - pstMblk.ulLen = 0 then rest else cutHeadLoop rest (ulLen - pstMblk.ulLen)
    else
      pstMblk.behind ulLen :: rest

def mbufCutHead (mbuf : MbufS) (ulCutLen : Nat) : MbufS :=
  let ulCutLen := min ulCutLen mbuf.ulTotalDataLen
  ⟨cutHeadLoop mbuf.stMblkHead ulCutLen, uintSub mbuf.ulTotalDataLen ulCutLen⟩

def cutTailLoop : List MbufMblkS → Nat → List MbufMblkS
  | [], _ => []
  | pstMblk :: rest, ulLen =>
    if pstMblk.ulLen ≤ ulLen then
      if ulLen - pstMblk.ulLen = 0 then rest else cutTailLoop rest (ulLen - pstMblk.ulLen)
    else
      { pstMblk with ulLen := pstMblk.ulLen - ulLen } :: rest

/-- `ulCutLen` is not bounded by the data there is. -/
def mbufCutTail (mbuf : MbufS) (ulCutLen : Nat) : MbufS :=
  ⟨(cutTailLoop mbuf.stMblkHead.reverse ulCutLen).reverse, uintSub mbuf.ulTotalDataLen ulCutLen⟩

def cutMiddle (pstMblk : MbufMblkS) (ulOffset ulLen : Nat) : Option MbufMblkS :=
  let data := pstMblk.pstCluster.pucData
  let start := pstMblk.headFree + ulOffset
  let behind := pstMblk.ulLen - ulOffset - ulLen
  if pstMblk.pstCluster.ulRefCnt > 1 then do
    let pstCluster := mbufCreateCluster memory
    let pucData ← pstCluster.pucData.transfer 0 data pstMblk.headFree ulOffset
    let pucData ← pucData.transfer ulOffset data (start + ulLen) behind
    some ((MbufMblkS.mk 0 (pstMblk.ulLen - ulLen) pstCluster).holding pucData)
  else do
    let pucData ← data.transfer start data (start + ulLen) behind
    some { pstMblk.holding pucData with ulLen := pstMblk.ulLen - ulLen }

def cutPartLoop : List MbufMblkS → Nat → Nat → Option (List MbufMblkS)
  | [], _, _ => some []
  | pstMblk :: rest, ulOffset, ulLen =>
    if ulOffset ≥ pstMblk.ulLen then do
      let blocks ← cutPartLoop rest (ulOffset - pstMblk.ulLen) ulLen
      some (pstMblk :: blocks)
    else if ulOffset > 0 then
      let front := { pstMblk with ulLen := ulOffset }
      let left := ulLen - (pstMblk.ulLen - ulOffset)
      if ulLen ≥ pstMblk.ulLen - ulOffset then
        if left = 0 then
          some (front :: rest)
        else do
          let blocks ← cutPartLoop rest 0 left
          some (front :: blocks)
      else do
        let pstMblk ← cutMiddle memory pstMblk ulOffset ulLen
        some (pstMblk :: rest)
    else if pstMblk.ulLen ≤ ulLen then
      if ulLen - pstMblk.ulLen = 0 then some rest
      else cutPartLoop rest 0 (ulLen - pstMblk.ulLen)
    else
      some (pstMblk.behind ulLen :: rest)

def mbufCutPart (mbuf : MbufS) (ulOffset ulCutLen : Nat) : Option (MbufS × BsStatus) :=
  if mbuf.ulTotalDataLen ≤ ulOffset then
    some (mbuf, .err)
  else if mbuf.ulTotalDataLen - ulOffset < ulCutLen then
    some (mbuf, .err)
  else do
    let blocks ← cutPartLoop memory mbuf.stMblkHead ulOffset ulCutLen
    some (⟨blocks, uintSub mbuf.ulTotalDataLen ulCutLen⟩, .ok)

/-- The data of a block moves to the start of a cluster of its own. -/
def toStart (pstMblk : MbufMblkS) : Option MbufMblkS :=
  let data := pstMblk.pstCluster.pucData
  if pstMblk.pstCluster.ulRefCnt > 1 then do
    let pstCluster := mbufCreateCluster memory
    let pucData ← pstCluster.pucData.transfer 0 data pstMblk.headFree pstMblk.ulLen
    some ((MbufMblkS.mk 0 pstMblk.ulLen pstCluster).holding pucData)
  else if pstMblk.headFree ≠ 0 then do
    let pucData ← data.transfer 0 data pstMblk.headFree pstMblk.ulLen
    some { pstMblk.holding pucData with headFree := 0 }
  else
    some pstMblk

/-- The window of a block that lost a part to the one before stays where it is, and after a
block that went away the scan goes on behind it. -/
def compressLoop : MbufMblkS → List MbufMblkS → Option (List MbufMblkS)
  | pstMblk, [] => some [pstMblk]
  | pstMblk, pstMblkNext :: rest => do
      let pstMblk ← toStart memory pstMblk
      let ulLen := min (uintSub pstMblk.pstCluster.ulSize pstMblk.ulLen) pstMblkNext.ulLen
      let pstMblk ← pstMblk.take pstMblkNext ulLen
      if pstMblkNext.ulLen - ulLen = 0 then
        match rest with
        | [] => some [pstMblk]
        | after :: more => do
            let blocks ← compressLoop after more
            some (pstMblk :: blocks)
      else do
        let blocks ← compressLoop { pstMblkNext with ulLen := pstMblkNext.ulLen - ulLen } rest
        some (pstMblk :: blocks)

def scanPairs (loop : MbufMblkS → List MbufMblkS → Option (List MbufMblkS)) :
    List MbufMblkS → Option (List MbufMblkS)
  | [] => some []
  | pstMblk :: rest => loop pstMblk rest

def mbufCompress (mbuf : MbufS) : Option (MbufS × BsStatus) :=
  if mbuf.stMblkHead.length ≤ 1 then
    some (mbuf, .ok)
  else do
    let blocks ← scanPairs (compressLoop memory) mbuf.stMblkHead
    some ({ mbuf with stMblkHead := blocks }, .ok)

/-- A small block joins the next one in front of it, or the next one joins it behind. -/
def neatLoop : MbufMblkS → List MbufMblkS → Option (List MbufMblkS)
  | pstMblk, [] => some [pstMblk]
  | pstMblk, pstMblkNext :: rest =>
    if pstMblk.ulLen < NEAT_LEN ∧ pstMblk.ulLen < pstMblkNext.ulLen ∧
        pstMblk.ulLen ≤ pstMblkNext.headFree then do
      let headFree := pstMblkNext.headFree - pstMblk.ulLen
      let pucData ← pstMblkNext.pstCluster.pucData.transfer headFree
        pstMblk.pstCluster.pucData pstMblk.headFree pstMblk.ulLen
      neatLoop
        { pstMblkNext.holding pucData with
          headFree := headFree, ulLen := pstMblkNext.ulLen + pstMblk.ulLen } rest
    else if pstMblkNext.ulLen < NEAT_LEN ∧ pstMblk.tailFree ≥ pstMblkNext.ulLen then do
      let pstMblk ← pstMblk.take pstMblkNext pstMblkNext.ulLen
      match rest with
      | [] => some [pstMblk]
      | after :: more => do
          let blocks ← neatLoop after more
          some (pstMblk :: blocks)
    else do
      let blocks ← neatLoop pstMblkNext rest
      some (pstMblk :: blocks)

def mbufNeat (mbuf : MbufS) : Option MbufS := do
  let blocks ← scanPairs neatLoop mbuf.stMblkHead
  some { mbuf with stMblkHead := blocks }

/-- A next block that is left over ends the loop: nothing more was to be moved. -/
def makeContinueLoop : MbufMblkS → List MbufMblkS → Nat → Option (List MbufMblkS)
  | pstMblk, [], _ => some [pstMblk]
  | pstMblk, pstMblkNext :: rest, ulLenShouldContinue => do
      let ulLenMove := min ulLenShouldContinue pstMblkNext.ulLen
      let pstMblk ← pstMblk.take pstMblkNext ulLenMove
      if ulLenShouldContinue - ulLenMove = 0 then
        if pstMblkNext.ulLen - ulLenMove = 0 then some (pstMblk :: rest)
        else some (pstMblk :: pstMblkNext.behind ulLenMove :: rest)
      else
        makeContinueLoop pstMblk rest (ulLenShouldContinue - ulLenMove)

/-- Room for the data is made behind the first block. -/
def makeRoom (pstMblk : MbufMblkS) (ulLen : Nat) : Option MbufMblkS :=
  let ulMore := uintSub ulLen pstMblk.ulLen
  if pstMblk.tailFree < ulMore then
    let moved := uintSub ulMore pstMblk.tailFree
    if moved ≤ pstMblk.headFree then do
      let data := pstMblk.pstCluster.pucData
      let pucData ← data.transfer (pstMblk.headFree - moved) data pstMblk.headFree pstMblk.ulLen
      some { pstMblk.holding pucData with headFree := pstMblk.headFree - moved }
    else none
  else
    some pstMblk

def mbufMakeContinueRaw (mbuf : MbufS) (ulLen : Nat) : Option (MbufS × BsStatus) :=
  if mbuf.ulTotalDataLen < ulLen then
    some (mbuf, .outOfRange)
  else
    match mbuf.stMblkHead with
    | [] => some (mbuf, .empty)
    | pstMblk :: rest =>
      if pstMblk.pstCluster.ulSize < ulLen then
        some (mbuf, .notSupport)
      else do
        let pstMblk ← makeRoom pstMblk ulLen
        let blocks ← makeContinueLoop pstMblk rest (uintSub ulLen pstMblk.ulLen)
        some ({ mbuf with stMblkHead := blocks }, .ok)

def mbufMakeContinue (mbuf : MbufS) (ulLen : Nat) : Option (MbufS × BsStatus) :=
  match mbuf.stMblkHead with
  | [] => mbufMakeContinueRaw mbuf ulLen
  | pstMblk :: _ =>
    if pstMblk.ulLen ≥ ulLen then some (mbuf, .ok) else mbufMakeContinueRaw mbuf ulLen

def fragmentLoop : List MbufMblkS → Nat → Option (List MbufMblkS × List MbufMblkS)
  | [], _ => some ([], [])
  | pstMblk :: rest, ulLenShouldMove =>
    if ulLenShouldMove ≥ pstMblk.ulLen then
      if ulLenShouldMove - pstMblk.ulLen = 0 then
        some ([pstMblk], rest)
      else do
        let (moved, left) ← fragmentLoop rest (ulLenShouldMove - pstMblk.ulLen)
        some (pstMblk :: moved, left)
    else do
      let (pstMblkTmp, pstMblk) ← mbufMblkFragment memory pstMblk ulLenShouldMove
      some ([pstMblkTmp], pstMblk :: rest)

def mbufFragment (mbuf : MbufS) (ulLen : Nat) : Option (MbufS × MbufS) := do
  let ulLen := min ulLen mbuf.ulTotalDataLen
  let (moved, left) ← fragmentLoop memory mbuf.stMblkHead ulLen
  some (⟨left, uintSub mbuf.ulTotalDataLen ulLen⟩, ⟨moved, ulLen⟩)

/-- The block with a position, the blocks behind it, and the place in it. -/
def mbufFindMblk : List MbufMblkS → Nat → Option (MbufMblkS × List MbufMblkS × Nat)
  | [], _ => none
  | pstMblk :: rest, ulOffsetToStart =>
    if ulOffsetToStart ≥ pstMblk.ulLen then mbufFindMblk rest (ulOffsetToStart - pstMblk.ulLen)
    else some (pstMblk, rest, ulOffsetToStart)

def rawCopyLoop : Nat → List MbufMblkS → Nat → Nat → Nat → Option (List MbufMblkS)
  | _, _, _, 0, _ => some []
  | 0, _, _, _, _ => none
  | _, [], _, _, _ => none
  | fuel + 1, pstMblk :: rest, ulOffsetToStart, ulCopyLen, ulReservedHeadSpace => do
      let bytes ← pstMblk.pstCluster.pucData.copyOut (pstMblk.headFree + ulOffsetToStart)
        (min (pstMblk.ulLen - ulOffsetToStart) ulCopyLen)
      let pstMblkDst ← mbufCreateMblkByCopyBuf memory bytes ulReservedHeadSpace
      let place :=
        if pstMblk.ulLen - ulOffsetToStart ≤ pstMblkDst.ulLen then (rest, 0)
        else (pstMblk :: rest, ulOffsetToStart + pstMblkDst.ulLen)
      let blocks ← rawCopyLoop fuel place.1 place.2 (ulCopyLen - pstMblkDst.ulLen) 0
      some (pstMblkDst :: blocks)

/-- No mbuf when the offset is not in the data. -/
def mbufRawCopy (mbuf : MbufS) (ulOffset ulLen ulReservedHeadSpace : Nat) :
    Option (Option MbufS) :=
  match mbufFindMblk mbuf.stMblkHead ulOffset with
  | none => some none
  | some (pstMblk, rest, ulOffsetToStart) => do
      let ulCopyLen := min ulLen (uintSub mbuf.ulTotalDataLen ulOffset)
      let ulReservedHeadSpace :=
        if ulReservedHeadSpace ≥ pstMblk.pstCluster.ulSize then 0 else ulReservedHeadSpace
      let blocks ← rawCopyLoop memory (ulCopyLen + rest.length + 1) (pstMblk :: rest)
        ulOffsetToStart ulCopyLen ulReservedHeadSpace
      some (some ⟨blocks, ulCopyLen⟩)

/-- `MBUF_Cat` frees the head of the source. -/
def mbufCat (pstMbufDst pstMbufSrc : MbufS) : MbufS :=
  ⟨pstMbufDst.stMblkHead ++ pstMbufSrc.stMblkHead,
    (pstMbufDst.ulTotalDataLen + pstMbufSrc.ulTotalDataLen) % 2 ^ 32⟩

def mbufNeatCat (pstMbufDst pstMbufSrc : MbufS) : Option MbufS :=
  mbufNeat (mbufCat pstMbufDst pstMbufSrc)

end MyCode.Mbuf
