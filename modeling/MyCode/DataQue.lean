import MyCode.Types
import MyCode.Lib.Block
import MyCode.Lib.Transition

/-!
# Data queues

`queue/data_que.c`: messages with their lengths in a ring of bytes that the writer and
the reader share.  `none` stands for an access outside the ring.
-/

namespace MyCode.DataQue

open Lib

/-- A value of type `int`. -/
def int32 (value : Int) : Int :=
  (value + 2 ^ 31) % 2 ^ 32 - 2 ^ 31

/-- `DATA_QUE_S` and the bytes behind `writer_base` and `reader_base`. -/
structure DataQueS where
  size : Int
  read : Int
  write : Int
  base : Block UCHAR

/-- A message whose length is an `int`. -/
structure Message where
  data : List UCHAR
  short : data.length < 2 ^ 31

def dataQueInit (size : Nat) (buf : Nat → UCHAR) : DataQueS :=
  { size := size, read := 0, write := 0, base := ⟨size, buf⟩ }

def dataQueUsed (ctrl : DataQueS) : Int :=
  let len := int32 (ctrl.write - ctrl.read)
  if len < 0 then int32 (ctrl.size + len) else len

def dataQueEmptyLen (ctrl : DataQueS) : Int :=
  let len := int32 (ctrl.read - ctrl.write)
  if len < 0 then int32 (ctrl.size + len) else len

/-- `data_node->len` of the node at a place. -/
def dataQueLen (base : Block UCHAR) (place : Int) : Option Int :=
  if 0 ≤ place then (base.copyOut place.toNat 4).map fun bytes => (bytesUint bytes).toInt
  else none

def dataQueSetLen (base : Block UCHAR) (place len : Int) : Option (Block UCHAR) :=
  if 0 ≤ place then base.copyIn place.toNat (uintBytes (BitVec.ofInt 32 len)) 4 else none

/-- `data_node->data` of the node at a place. -/
def dataQueData (base : Block UCHAR) (place len : Int) : Option (List UCHAR) :=
  if 0 ≤ place ∧ 0 ≤ len then base.copyOut (place + 4).toNat len.toNat else none

def dataQueSetData (base : Block UCHAR) (place : Int) (data : List UCHAR) :
    Option (Block UCHAR) :=
  if 0 ≤ place then base.copyIn (place + 4).toNat (fun i => data.getD i 0) data.length else none

/-- `size - index <= sizeof(DATA_QUE_DATA_S)`, where the difference is compared as an
unsigned number. -/
def dataQueShort (size index : Int) : Prop :=
  0 ≤ int32 (size - index) ∧ int32 (size - index) ≤ 4

instance (size index : Int) : Decidable (dataQueShort size index) :=
  inferInstanceAs (Decidable (_ ∧ _))

/-- The first part of `DataQue_Push`: the end of the ring is marked and left. -/
def dataQueTurn (ctrl : DataQueS) (need_len : Int) : Option DataQueS :=
  if ctrl.write ≥ ctrl.read ∧ int32 (ctrl.write + need_len) > ctrl.size then do
    let base ← dataQueSetLen ctrl.base ctrl.write 0
    some { ctrl with base := base, write := 0 }
  else
    some ctrl

/-- The last part of `DataQue_Push`. -/
def dataQueAppend (ctrl : DataQueS) (need_len : Int) (data : List UCHAR) :
    Option (DataQueS × BsStatus) := do
  let base ← dataQueSetLen ctrl.base ctrl.write data.length
  let base ← dataQueSetData base ctrl.write data
  let write := int32 (ctrl.write + need_len)
  some
    ({ ctrl with base := base, write := if dataQueShort ctrl.size write then 0 else write }, .ok)

def dataQuePush (ctrl : DataQueS) (message : Message) : Option (DataQueS × BsStatus) := do
  let need_len := int32 (message.data.length + 4)
  let ctrl ← dataQueTurn ctrl need_len
  if ctrl.read > ctrl.write ∧ int32 (ctrl.write + need_len) ≥ ctrl.read then
    some (ctrl, .full)
  else
    dataQueAppend ctrl need_len message.data

/-- The place of the next node, `none` for the null pointer. -/
def dataQueGet (ctrl : DataQueS) : Option (DataQueS × Option Int) :=
  if ctrl.read = ctrl.write then
    some (ctrl, none)
  else do
    let len ← dataQueLen ctrl.base ctrl.read
    let ctrl := if len = 0 then { ctrl with read := 0 } else ctrl
    some (ctrl, if ctrl.read = ctrl.write then none else some ctrl.read)

def dataQuePop (ctrl : DataQueS) (node : Int) : Option DataQueS := do
  let len ← dataQueLen ctrl.base node
  let read := int32 (ctrl.read + int32 (len + 4))
  some
    { ctrl with read := if read ≥ ctrl.size ∨ dataQueShort ctrl.size read then 0 else read }

/-- `DataQue_Get`, the data of the node, and `DataQue_Pop`. -/
def dataQueTake (ctrl : DataQueS) : Option (DataQueS × Option (List UCHAR)) := do
  let (ctrl, node) ← dataQueGet ctrl
  match node with
  | none => some (ctrl, none)
  | some node => do
      let len ← dataQueLen ctrl.base node
      let data ← dataQueData ctrl.base node len
      let ctrl ← dataQuePop ctrl node
      some (ctrl, some data)

inductive DataQueCall where
  | put (message : Message)
  | get

/-- A queue, the messages it accepted and the messages it returned. -/
structure DataQueRun where
  ctrl : DataQueS
  accepted : List (List UCHAR)
  returned : List (List UCHAR)

def DataQueCall.run (run : DataQueRun) : DataQueCall → Option DataQueRun
  | put message =>
    (dataQuePush run.ctrl message).map fun (ctrl, status) =>
      { run with
        ctrl := ctrl
        accepted := if status = .ok then run.accepted ++ [message.data] else run.accepted }
  | get =>
    (dataQueTake run.ctrl).map fun (ctrl, data) =>
      { run with ctrl := ctrl, returned := run.returned ++ data.toList }

/-- The runs of queues whose size is an `int`. -/
def dataQueSystem : System DataQueRun DataQueCall where
  start run := ∃ (size : Nat) (buf : Nat → UCHAR), size < 2 ^ 31 ∧
    run = ⟨dataQueInit size buf, [], []⟩
  step run call after := call.run run = some after

end MyCode.DataQue
