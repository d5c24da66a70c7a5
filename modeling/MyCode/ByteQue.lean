import MyCode.Types
import MyCode.Lib.Block

/-!
# Byte queues

`queue/byte_que.c`.  `NUM_CYCLE_INDEX_ADD` is not part of the sources and enters as a
parameter.  `none` stands for an access outside the memory that was asked for.
-/

namespace MyCode.ByteQue

open Lib

/-- `BYTE_QUE_CTRL_S` and the bytes behind it. -/
structure ByteQueCtrl where
  uiCapacity : UINT
  uiBase : UINT
  uiCount : UINT
  uiFlag : UINT
  aucData : Block UCHAR

def QUE_FLAG_OVERWRITE : UINT := 1

def BYTE_QUE_POP_ERR : UINT := 0xFFFFFFFF

/-- The size is handed on in 32 bits, and the control block of 16 bytes is zeroed. -/
def byteQueCreate (uiCapacity uiFlag : UINT) (memory : Nat → UCHAR) : Option ByteQueCtrl :=
  let uiSize := 16 + uiCapacity
  if uiSize < 16 then
    none
  else
    some
      { uiCapacity := uiCapacity
        uiBase := 0
        uiCount := 0
        uiFlag := uiFlag
        aucData := ⟨uiSize.toNat - 16, memory⟩ }

def byteQueClear (que : ByteQueCtrl) : ByteQueCtrl :=
  { que with uiBase := 0, uiCount := 0 }

def byteQueCount (que : ByteQueCtrl) : UINT :=
  que.uiCount

def byteQueIsFull (que : ByteQueCtrl) : Bool :=
  que.uiCount ≥ que.uiCapacity

section Operations

variable (NUM_CYCLE_INDEX_ADD : UINT → UINT → UINT → UINT)

def byteQuePop (que : ByteQueCtrl) : Option (ByteQueCtrl × UINT) :=
  if que.uiCount = 0 then
    some (que, BYTE_QUE_POP_ERR)
  else do
    let ucChar ← que.aucData.load que.uiBase.toNat
    some
      ({ que with
          uiBase := NUM_CYCLE_INDEX_ADD que.uiBase 1 que.uiCapacity
          uiCount := que.uiCount - 1 },
        ucChar.setWidth 32)

/-- What `ByteQue_Push` does once there is room. -/
def byteQueAppend (que : ByteQueCtrl) (ucChar : UCHAR) : Option (ByteQueCtrl × BsStatus) := do
  let uiDest := NUM_CYCLE_INDEX_ADD que.uiBase que.uiCount que.uiCapacity
  let aucData ← que.aucData.store uiDest.toNat ucChar
  some ({ que with aucData := aucData, uiCount := que.uiCount + 1 }, .ok)

def byteQuePush (que : ByteQueCtrl) (ucChar : UCHAR) : Option (ByteQueCtrl × BsStatus) :=
  if que.uiCount ≥ que.uiCapacity then
    if hasFlag que.uiFlag QUE_FLAG_OVERWRITE then do
      let (que, _) ← byteQuePop NUM_CYCLE_INDEX_ADD que
      byteQueAppend NUM_CYCLE_INDEX_ADD que ucChar
    else
      some (que, .full)
  else
    byteQueAppend NUM_CYCLE_INDEX_ADD que ucChar

/-- The rounds of the loop of `ByteQue_PopSpec`. -/
def byteQueShift (uiCapacity : UINT) : Nat → UINT → Block UCHAR → Option (Block UCHAR)
  | 0, _, aucData => some aucData
  | rounds + 1, uiDst, aucData => do
      let uiSrc := NUM_CYCLE_INDEX_ADD uiDst 1 uiCapacity
      let ucChar ← aucData.load uiSrc.toNat
      let aucData ← aucData.store uiDst.toNat ucChar
      byteQueShift uiCapacity rounds (NUM_CYCLE_INDEX_ADD uiDst 1 uiCapacity) aucData

def byteQuePopSpec (que : ByteQueCtrl) (uiIndex : UINT) : Option (ByteQueCtrl × UINT) :=
  if uiIndex ≥ que.uiCount then
    some (que, BYTE_QUE_POP_ERR)
  else do
    let uiDst := NUM_CYCLE_INDEX_ADD que.uiBase uiIndex que.uiCapacity
    let ucChar ← que.aucData.load uiDst.toNat
    let aucData ← byteQueShift NUM_CYCLE_INDEX_ADD que.uiCapacity
      (que.uiCount.toNat - (uiIndex.toNat + 1)) uiDst que.aucData
    some ({ que with aucData := aucData, uiCount := que.uiCount - 1 }, ucChar.setWidth 32)

def byteQuePopTail (que : ByteQueCtrl) : Option (ByteQueCtrl × UINT) :=
  if que.uiCount = 0 then
    some (que, BYTE_QUE_POP_ERR)
  else
    byteQuePopSpec NUM_CYCLE_INDEX_ADD que (que.uiCount - 1)

def byteQuePeekOne (que : ByteQueCtrl) (uiIndex : UINT) : Option UINT :=
  if uiIndex ≥ que.uiCount then
    some BYTE_QUE_POP_ERR
  else do
    let uiSrc := NUM_CYCLE_INDEX_ADD que.uiBase uiIndex que.uiCapacity
    let ucChar ← que.aucData.load uiSrc.toNat
    some (ucChar.setWidth 32)

/-- The rounds of the loop of `ByteQue_Peek`. -/
def byteQueCopy (que : ByteQueCtrl) : Nat → UINT → Option (List UCHAR)
  | 0, _ => some []
  | rounds + 1, uiSrc => do
      let ucChar ← que.aucData.load uiSrc.toNat
      let rest ← byteQueCopy que rounds (NUM_CYCLE_INDEX_ADD uiSrc 1 que.uiCapacity)
      some (ucChar :: rest)

/-- The bytes that come into `pucBuf`, and their number. -/
def byteQuePeek (que : ByteQueCtrl) (uiIndex uiCount : UINT) : Option (List UCHAR × UINT) :=
  if uiIndex ≥ que.uiCount then
    some ([], 0)
  else do
    let uiCopyCount := if uiCount < que.uiCount - uiIndex then uiCount else que.uiCount - uiIndex
    let uiSrc := NUM_CYCLE_INDEX_ADD que.uiBase uiIndex que.uiCapacity
    let pucBuf ← byteQueCopy NUM_CYCLE_INDEX_ADD que uiCopyCount.toNat uiSrc
    some (pucBuf, uiCopyCount)

inductive ByteQueCall where
  | push (ucChar : UCHAR)
  | pop
  | popSpec (uiIndex : UINT)
  | popTail
  | peekOne (uiIndex : UINT)
  | peek (uiIndex uiCount : UINT)
  | clear
  | count
  | isFull

inductive ByteQueAnswer where
  | status (status : BsStatus)
  | word (value : UINT)
  | bytes (pucBuf : List UCHAR) (count : UINT)
  | flag (value : Bool)
  | done
  deriving DecidableEq

def byteQueStep (que : ByteQueCtrl) : ByteQueCall → Option (ByteQueCtrl × ByteQueAnswer)
  | .push ucChar =>
    (byteQuePush NUM_CYCLE_INDEX_ADD que ucChar).map fun (que, status) => (que, .status status)
  | .pop => (byteQuePop NUM_CYCLE_INDEX_ADD que).map fun (que, value) => (que, .word value)
  | .popSpec uiIndex =>
    (byteQuePopSpec NUM_CYCLE_INDEX_ADD que uiIndex).map fun (que, value) => (que, .word value)
  | .popTail => (byteQuePopTail NUM_CYCLE_INDEX_ADD que).map fun (que, value) => (que, .word value)
  | .peekOne uiIndex =>
    (byteQuePeekOne NUM_CYCLE_INDEX_ADD que uiIndex).map fun value => (que, .word value)
  | .peek uiIndex uiCount =>
    (byteQuePeek NUM_CYCLE_INDEX_ADD que uiIndex uiCount).map fun (pucBuf, count) =>
      (que, .bytes pucBuf count)
  | .clear => some (byteQueClear que, .done)
  | .count => some (que, .word (byteQueCount que))
  | .isFull => some (que, .flag (byteQueIsFull que))

end Operations

end MyCode.ByteQue
