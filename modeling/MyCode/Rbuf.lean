import MyCode.Types
import MyCode.Lib.Block

/-!
# Ring buffers

`buf/rbuf.c`.  `none` stands for an access outside the memory that was asked for.
-/

namespace MyCode.Rbuf

open Lib

/-- `_RBUF_CTRL_S` and the bytes behind it. -/
structure RbufCtrl where
  ulMaxDataLen : UINT
  ulDataLen : UINT
  ulReadIndex : UINT
  ulWriteIndex : UINT
  pucData : Block UCHAR

/-- The size is handed on in 32 bits, and the control block of 24 bytes is zeroed. -/
def rbufCreate (ulBufLen : UINT) (memory : Nat → UCHAR) : Option (Except BsStatus RbufCtrl) :=
  if ulBufLen = 0 then
    some (.error .nullPara)
  else
    let uiSize := 24 + ulBufLen
    if uiSize < 24 then
      none
    else
      some <| .ok
        { ulMaxDataLen := ulBufLen
          ulDataLen := 0
          ulReadIndex := 0
          ulWriteIndex := 0
          pucData := ⟨uiSize.toNat - 24, memory⟩ }

/-- A write that is longer than the buffer starts with an empty one, and `pucBuf` moves
by the difference of two equal lengths. -/
def rbufShorten (ctrl : RbufCtrl) (ulBufLen : UINT) : RbufCtrl × UINT × UINT :=
  if ulBufLen > ctrl.ulMaxDataLen then
    ({ ctrl with ulDataLen := 0, ulReadIndex := 0, ulWriteIndex := 0 }, ctrl.ulMaxDataLen,
      ctrl.ulMaxDataLen - ctrl.ulMaxDataLen)
  else
    (ctrl, ulBufLen, 0)

/-- The bytes go behind the write index, and from the start on when they reach the end. -/
def rbufCopy (ctrl : RbufCtrl) (pucBuf : Nat → UCHAR) (ulBufLen : UINT) : Option (Block UCHAR) :=
  if ctrl.ulWriteIndex + ulBufLen ≤ ctrl.ulMaxDataLen then
    ctrl.pucData.copyIn ctrl.ulWriteIndex.toNat pucBuf ulBufLen.toNat
  else do
    let ulWriteLenFirst := ctrl.ulMaxDataLen - ctrl.ulWriteIndex
    let data ← ctrl.pucData.copyIn ctrl.ulWriteIndex.toNat pucBuf ulWriteLenFirst.toNat
    data.copyIn 0 (fun i => pucBuf (ulWriteLenFirst.toNat + i)) (ulBufLen - ulWriteLenFirst).toNat

def rbufWriteForce (ctrl : RbufCtrl) (pucBuf : Option (Nat → UCHAR)) (ulBufLen : UINT) :
    Option (RbufCtrl × BsStatus) :=
  match pucBuf with
  | none => some (ctrl, .nullPara)
  | some pucBuf =>
    if ulBufLen = 0 then
      some (ctrl, .ok)
    else do
      let (ctrl, ulBufLen, moved) := rbufShorten ctrl ulBufLen
      let free := ctrl.ulMaxDataLen - ctrl.ulDataLen
      let ulReadIndex :=
        if ulBufLen > free then (ctrl.ulReadIndex + ulBufLen - free) % ctrl.ulMaxDataLen
        else ctrl.ulReadIndex
      let data ← rbufCopy ctrl (fun i => pucBuf (moved.toNat + i)) ulBufLen
      some
        ({ ctrl with
            pucData := data
            ulReadIndex := ulReadIndex
            ulWriteIndex := (ctrl.ulWriteIndex + ulBufLen) % ctrl.ulMaxDataLen
            ulDataLen := ctrl.ulDataLen + ulBufLen }, .ok)

/-- The indices are moved here once more after `RBUF_WriteForce`.  The number is
`*pulWriteLen`. -/
def rbufWrite (ctrl : RbufCtrl) (pucBuf : Option (Nat → UCHAR)) (ulBufLen : UINT) :
    Option (RbufCtrl × BsStatus × UINT) :=
  match pucBuf with
  | none => some (ctrl, .nullPara, 0)
  | some pucBuf =>
    if ulBufLen = 0 then
      some (ctrl, .ok, 0)
    else do
      let free := ctrl.ulMaxDataLen - ctrl.ulDataLen
      let ulWriteLen := if ulBufLen < free then ulBufLen else free
      let (ctrl, _) ← rbufWriteForce ctrl (some pucBuf) ulWriteLen
      some
        ({ ctrl with
            ulWriteIndex := (ctrl.ulWriteIndex + ulWriteLen) % ctrl.ulMaxDataLen
            ulDataLen := ctrl.ulDataLen + ulWriteLen }, .ok, ulWriteLen)

/-- `memmove` inside the data. -/
def rbufMove (data : Block UCHAR) (target source length : Nat) : Option (Block UCHAR) :=
  if source + length ≤ data.size then
    data.copyIn target (fun i => data.cells (source + i)) length
  else
    none

/-- The bytes in front of the write index are put behind those at the end, all but the
last one of them. -/
def rbufStraighten (ctrl : RbufCtrl) : Option RbufCtrl :=
  if ctrl.ulWriteIndex < ctrl.ulReadIndex ∧ ctrl.ulWriteIndex ≠ 0 then do
    let length := (ctrl.ulWriteIndex - 1).toNat
    let behind := (ctrl.ulMaxDataLen - ctrl.ulReadIndex).toNat
    let pucTmp ← ctrl.pucData.copyOut 0 length
    let data ← rbufMove ctrl.pucData 0 ctrl.ulReadIndex.toNat behind
    let data ← data.copyIn behind (fun i => pucTmp.getD i 0) length
    some { ctrl with pucData := data, ulReadIndex := 0, ulWriteIndex := ctrl.ulDataLen }
  else
    some ctrl

/-- `*ppucData` relative to `pucData`, and `*pulDataLen`. -/
def rbufReadNoDel (ctrl : RbufCtrl) : Option (RbufCtrl × Nat × UINT) := do
  let ctrl ← rbufStraighten ctrl
  some (ctrl, ctrl.ulReadIndex.toNat, ctrl.ulDataLen)

def rbufRead (ctrl : RbufCtrl) : Option (RbufCtrl × Nat × UINT) := do
  let (ctrl, pucData, ulDataLen) ← rbufReadNoDel ctrl
  some ({ ctrl with ulDataLen := 0, ulReadIndex := 0, ulWriteIndex := 0 }, pucData, ulDataLen)

/-- `*ppucWritePtr` relative to `pucData`, and `*pulContinueMemLen`. -/
def rbufGetContinueWritePtr (ctrl : RbufCtrl) : Except BsStatus (Nat × UINT) :=
  if ctrl.ulDataLen ≥ ctrl.ulMaxDataLen then
    .error .noMemory
  else
    .ok (ctrl.ulWriteIndex.toNat,
      if ctrl.ulReadIndex ≤ ctrl.ulWriteIndex then ctrl.ulMaxDataLen - ctrl.ulWriteIndex
      else ctrl.ulReadIndex - ctrl.ulWriteIndex)

def rbufMoveWriteIndex (ctrl : RbufCtrl) (lIndexMovOffset : UINT) : RbufCtrl :=
  { ctrl with ulWriteIndex := (ctrl.ulWriteIndex + lIndexMovOffset) % ctrl.ulMaxDataLen }

def rbufMoveReadIndex (ctrl : RbufCtrl) (lIndexMovOffset : UINT) : RbufCtrl :=
  { ctrl with ulWriteIndex := (ctrl.ulReadIndex + lIndexMovOffset) % ctrl.ulMaxDataLen }

def rbufIsFull (ctrl : RbufCtrl) : Bool :=
  ctrl.ulDataLen ≥ ctrl.ulMaxDataLen

def rbufIsEmpty (ctrl : RbufCtrl) : Bool :=
  ctrl.ulDataLen == 0

/-- `moveWriteIndex` comes after the caller put that many bytes where
`RBUF_GetContinueWritePtr` points. -/
inductive RbufCall where
  | write (pucBuf : Option (Nat → UCHAR)) (ulBufLen : UINT)
  | writeForce (pucBuf : Option (Nat → UCHAR)) (ulBufLen : UINT)
  | readNoDel
  | read
  | moveWriteIndex (bytes : Nat → UCHAR) (lIndexMovOffset : UINT)
  | moveReadIndex (lIndexMovOffset : UINT)
  | isFull
  | isEmpty

inductive RbufAnswer where
  | status (status : BsStatus)
  | written (status : BsStatus) (ulWriteLen : UINT)
  | bytes (bytes : List UCHAR) (ulDataLen : UINT)
  | flag (value : Bool)
  | done
  deriving DecidableEq

def rbufStep (ctrl : RbufCtrl) : RbufCall → Option (RbufCtrl × RbufAnswer)
  | .write pucBuf ulBufLen =>
    (rbufWrite ctrl pucBuf ulBufLen).map fun (ctrl, status, ulWriteLen) =>
      (ctrl, .written status ulWriteLen)
  | .writeForce pucBuf ulBufLen =>
    (rbufWriteForce ctrl pucBuf ulBufLen).map fun (ctrl, status) => (ctrl, .status status)
  | .readNoDel => do
      let (ctrl, pucData, ulDataLen) ← rbufReadNoDel ctrl
      let bytes ← ctrl.pucData.copyOut pucData ulDataLen.toNat
      some (ctrl, .bytes bytes ulDataLen)
  | .read => do
      let (ctrl, pucData, ulDataLen) ← rbufRead ctrl
      let bytes ← ctrl.pucData.copyOut pucData ulDataLen.toNat
      some (ctrl, .bytes bytes ulDataLen)
  | .moveWriteIndex bytes lIndexMovOffset => do
      let data ← ctrl.pucData.copyIn ctrl.ulWriteIndex.toNat bytes lIndexMovOffset.toInt.toNat
      some (rbufMoveWriteIndex { ctrl with pucData := data } lIndexMovOffset, .done)
  | .moveReadIndex lIndexMovOffset => some (rbufMoveReadIndex ctrl lIndexMovOffset, .done)
  | .isFull => some (ctrl, .flag (rbufIsFull ctrl))
  | .isEmpty => some (ctrl, .flag (rbufIsEmpty ctrl))

end MyCode.Rbuf
