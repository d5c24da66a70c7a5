import MyCode.Types
import MyCode.Lib.Block

/-!
# Ring arrays

`buf/rarray.c`.  A row is its length and its bytes, and a full array overwrites its
oldest row.  `none` stands for an access outside the memory that was asked for.
-/

namespace MyCode.RArray

open Lib

/-- `_RARRAY_CTRL_S` and the rows behind it. -/
structure RArrayCtrl where
  ulRowsCount : UINT
  ulColCount : UINT
  ulReadIndex : UINT
  ulWriteIndex : UINT
  ulCount : UINT
  pucData : Block UCHAR

/-- The size is handed on in 32 bits, and the control block of 32 bytes is zeroed.  The
inner `none` is the null handle. -/
def rarrayCreate (ulRowsCount ulColCount : UINT) (memory : Nat → UCHAR) :
    Option (Option RArrayCtrl) :=
  if ulRowsCount = 0 ∨ ulColCount = 0 then
    some none
  else
    let uiSize := ulRowsCount * (ulColCount + 4) + 32
    if uiSize < 32 then
      none
    else
      some <| some
        { ulRowsCount := ulRowsCount
          ulColCount := ulColCount + 4
          ulReadIndex := 0
          ulWriteIndex := 0
          ulCount := 0
          pucData := ⟨uiSize.toNat - 32, memory⟩ }

def rarrayReset (ctrl : RArrayCtrl) : RArrayCtrl :=
  { ctrl with ulReadIndex := 0, ulWriteIndex := 0, ulCount := 0 }

def rarrayIsFull (ctrl : RArrayCtrl) : Prop :=
  ctrl.ulCount = ctrl.ulRowsCount

instance (ctrl : RArrayCtrl) : Decidable (rarrayIsFull ctrl) :=
  inferInstanceAs (Decidable (_ = _))

def rarrayTooLong (ctrl : RArrayCtrl) (ulDataLen : UINT) : Bool :=
  ulDataLen.setWidth 64 > ctrl.ulColCount.setWidth 64 - 4

/-- Where a row is, relative to `pucData`. -/
def rarrayPlace (ctrl : RArrayCtrl) (ulIndex : UINT) : Nat :=
  (ulIndex * ctrl.ulColCount).toNat

/-- The bytes behind the length of a row; nothing is copied for an empty one. -/
def rarrayCopyData (ctrl : RArrayCtrl) (pucData : Nat → UCHAR) (ulDataLen : UINT) :
    Option (Block UCHAR) :=
  if ulDataLen > 0 then
    ctrl.pucData.copyIn (rarrayPlace ctrl ctrl.ulWriteIndex + 4) pucData ulDataLen.toNat
  else
    some ctrl.pucData

def rarrayWriteForce (ctrl : RArrayCtrl) (pucData : Option (Nat → UCHAR)) (ulDataLen : UINT) :
    Option (RArrayCtrl × BsStatus) :=
  match pucData with
  | none => some (ctrl, .nullPara)
  | some pucData =>
    if rarrayTooLong ctrl ulDataLen then
      some (ctrl, .tooLong)
    else do
      let data ← rarrayCopyData ctrl pucData ulDataLen
      let data ← data.copyIn (rarrayPlace ctrl ctrl.ulWriteIndex) (uintBytes ulDataLen) 4
      let ulWriteIndex := (ctrl.ulWriteIndex + 1) % ctrl.ulRowsCount
      if rarrayIsFull ctrl then
        some ({ ctrl with
          pucData := data, ulWriteIndex := ulWriteIndex, ulReadIndex := ulWriteIndex }, .ok)
      else
        some ({ ctrl with
          pucData := data, ulWriteIndex := ulWriteIndex, ulCount := ctrl.ulCount + 1 }, .ok)

def rarrayWrite (ctrl : RArrayCtrl) (pucData : Option (Nat → UCHAR)) (ulDataLen : UINT) :
    Option (RArrayCtrl × BsStatus) :=
  match pucData with
  | none => some (ctrl, .nullPara)
  | some _ =>
    if rarrayTooLong ctrl ulDataLen then some (ctrl, .tooLong)
    else if rarrayIsFull ctrl then some (ctrl, .full)
    else rarrayWriteForce ctrl pucData ulDataLen

/-- `*ppucData`, relative to `pucData`, and `*pulDataLen` for a row. -/
def rarrayRow (ctrl : RArrayCtrl) (ulIndex : UINT) : Option (Nat × UINT) := do
  let length ← ctrl.pucData.copyOut (rarrayPlace ctrl ulIndex) 4
  some (rarrayPlace ctrl ulIndex + 4, bytesUint length)

def rarrayReadNoDel (ctrl : RArrayCtrl) : Option (Except BsStatus (Nat × UINT)) :=
  if ctrl.ulCount = 0 then some (.error .empty)
  else (rarrayRow ctrl ctrl.ulReadIndex).map .ok

def rarrayRead (ctrl : RArrayCtrl) : Option (RArrayCtrl × Except BsStatus (Nat × UINT)) := do
  match ← rarrayReadNoDel ctrl with
  | .error status => some (ctrl, .error status)
  | .ok row =>
    some ({ ctrl with
      ulReadIndex := (ctrl.ulReadIndex + 1) % ctrl.ulRowsCount
      ulCount := ctrl.ulCount - 1 }, .ok row)

def rarrayReadIndex (ctrl : RArrayCtrl) (ulIndex : UINT) :
    Option (Except BsStatus (Nat × UINT)) :=
  if ulIndex ≥ ctrl.ulCount then some (.error .empty)
  else (rarrayRow ctrl ((ctrl.ulReadIndex + ulIndex) % ctrl.ulRowsCount)).map .ok

def rarrayReadReversedIndex (ctrl : RArrayCtrl) (ulIndex : UINT) :
    Option (Except BsStatus (Nat × UINT)) :=
  if ulIndex ≥ ctrl.ulCount then some (.error .empty)
  else
    (rarrayRow ctrl
      ((ctrl.ulWriteIndex + ctrl.ulRowsCount - 1 - ulIndex) % ctrl.ulRowsCount)).map .ok

/-- The bytes that the caller finds behind the pointer of a row. -/
def rarrayBytes (ctrl : RArrayCtrl) (row : Nat × UINT) : Option (List UCHAR) :=
  ctrl.pucData.copyOut row.1 row.2.toNat

inductive RArrayCall where
  | writeForce (pucData : Option (Nat → UCHAR)) (ulDataLen : UINT)
  | write (pucData : Option (Nat → UCHAR)) (ulDataLen : UINT)
  | readNoDel
  | read
  | readIndex (ulIndex : UINT)
  | readReversedIndex (ulIndex : UINT)
  | reset

inductive RArrayAnswer where
  | status (status : BsStatus)
  | row (bytes : List UCHAR)
  | done
  deriving DecidableEq

def rarrayAnswer (ctrl : RArrayCtrl) : Except BsStatus (Nat × UINT) → Option RArrayAnswer
  | .error status => some (.status status)
  | .ok row => (rarrayBytes ctrl row).map .row

def rarrayStep (ctrl : RArrayCtrl) : RArrayCall → Option (RArrayCtrl × RArrayAnswer)
  | .writeForce pucData ulDataLen =>
    (rarrayWriteForce ctrl pucData ulDataLen).map fun (ctrl, status) => (ctrl, .status status)
  | .write pucData ulDataLen =>
    (rarrayWrite ctrl pucData ulDataLen).map fun (ctrl, status) => (ctrl, .status status)
  | .readNoDel => do
      let answer ← rarrayAnswer ctrl (← rarrayReadNoDel ctrl)
      some (ctrl, answer)
  | .read => do
      let (ctrl, result) ← rarrayRead ctrl
      let answer ← rarrayAnswer ctrl result
      some (ctrl, answer)
  | .readIndex ulIndex => do
      let answer ← rarrayAnswer ctrl (← rarrayReadIndex ctrl ulIndex)
      some (ctrl, answer)
  | .readReversedIndex ulIndex => do
      let answer ← rarrayAnswer ctrl (← rarrayReadReversedIndex ctrl ulIndex)
      some (ctrl, answer)
  | .reset => some (rarrayReset ctrl, .done)

end MyCode.RArray
