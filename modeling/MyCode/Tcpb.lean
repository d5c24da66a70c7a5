import MyCode.HoleData

/-!
# Buffering the payload of a TCP stream

`tcp/tcp_buffer.c`: one node of the buffer and its output function.  What the reader is given
goes to a list; `none` is an access outside the data or an overflow of an `int`.
-/

namespace MyCode.Tcpb

open HoleData

/-- `TCPB_BUF_S`; `len` is the length of the data. -/
structure TcpbBuf where
  offset : UINT64
  data : List UCHAR
  save_offset : USHORT
  need_save : Bool
  failed : Bool
  deriving DecidableEq

/-- `TCPB_NODE_S`. -/
structure TcpbNode where
  payload_begin_sn : UINT
  buffer_begin_sn : UINT
  holedata : HoleDataS
  failed : Bool

def tcbpInitNode (memory : Nat → UCHAR) (max_buff_size : Nat) (payload_sn : UINT) : TcpbNode :=
  ⟨payload_sn, 0, holeDataInit memory max_buff_size, false⟩

def tcpbSetSaveOffset (tcpbuf : TcpbBuf) (offset : UINT) : TcpbBuf :=
  let kept : UINT := tcpbuf.save_offset.setWidth 32
  let save_offset := if tcpbuf.need_save then (if offset < kept then offset else kept) else offset
  { tcpbuf with save_offset := save_offset.setWidth 16, need_save := true }

/-- The output function: for what came before and what comes now, the offsets that it sets. -/
abbrev Reader := List TcpbBuf → TcpbBuf → List UINT

structure TcpbRun where
  node : TcpbNode
  sent : List TcpbBuf

/-- The buffer as the output function leaves it. -/
def outputAnswer (output : Reader) (sent : List TcpbBuf) (buf : TcpbBuf) : TcpbBuf :=
  (output sent buf).foldl tcpbSetSaveOffset buf

section Operations

variable (numUpAlign : Nat → Nat) (max_buff_size : Nat) (output : Reader)

/-- `HoleData_Input`, whose end offset is an `int`. -/
def tcpbHoleInput (node : TcpbNode) (payload : List UCHAR) (buff_offset : Nat) :
    Option (TcpbNode × Int) :=
  if 2 ^ 31 ≤ buff_offset + payload.length then
    none
  else do
    let (holedata, saved_len) ← holeDataInput numUpAlign node.holedata payload buff_offset
    some ({ node with holedata := holedata }, saved_len)

def tcpbSave (node : TcpbNode) (sn : UINT) (payload : List UCHAR) : Option (TcpbNode × Int) :=
  if holeDataGetFilledSize node.holedata = 0 then
    tcpbHoleInput numUpAlign { node with buffer_begin_sn := sn } payload 0
  else
    let buff_offset := (sn - node.buffer_begin_sn).toInt
    if buff_offset < 0 then
      some (node, 0)
    else if buff_offset ≥ max_buff_size then
      some (node, BsStatus.outOfRange.toInt)
    else
      tcpbHoleInput numUpAlign node payload buff_offset.toNat

/-- The data in the buffer up to the first hole. -/
def tcpbContineBuf (node : TcpbNode) (failed : Bool) : TcpbBuf :=
  { offset := (node.buffer_begin_sn - node.payload_begin_sn).setWidth 64
    data := (List.range (holeDataGetContineLen node.holedata)).map node.holedata.data
    save_offset := 0
    need_save := false
    failed := failed }

def tcpbSaveAndSend (run : TcpbRun) (sn : UINT) (payload : List UCHAR) :
    Option (TcpbRun × Int) := do
  let last_continue_len := holeDataGetContineLen run.node.holedata
  let (node, saved_len) ← tcpbSave numUpAlign max_buff_size run.node sn payload
  let current_continue_len := holeDataGetContineLen node.holedata
  if last_continue_len ≠ current_continue_len then
    let buf := tcpbContineBuf node false
    let sent := run.sent ++ [buf]
    let reset := { node with holedata := holeDataReset node.holedata }
    if (outputAnswer output run.sent buf).need_save = false then
      some (⟨reset, sent⟩, saved_len)
    else if saved_len < payload.length then
      some (⟨reset, sent⟩, BsStatus.full.toInt)
    else
      some (⟨node, sent⟩, saved_len)
  else
    some (⟨node, run.sent⟩, saved_len)

/-- An offset behind the payload gives a negative length, and nothing is saved. -/
def tcpbSendAndSave (run : TcpbRun) (sn : UINT) (payload : List UCHAR) :
    Option (TcpbRun × Int) :=
  let buf : TcpbBuf :=
    { offset := (sn - run.node.payload_begin_sn).setWidth 64
      data := payload
      save_offset := 0
      need_save := false
      failed := false }
  let answer := outputAnswer output run.sent buf
  let sent := run.sent ++ [buf]
  if answer.need_save then do
    let save_offset : UINT := answer.save_offset.setWidth 32
    let need_save_len := BitVec.ofNat 32 payload.length - save_offset
    let (node, saved_len) ← tcpbSave numUpAlign max_buff_size run.node (sn + save_offset)
      (payload.drop save_offset.toNat)
    if BitVec.ofInt 32 saved_len < need_save_len then
      some (⟨node, sent⟩, BsStatus.full.toInt)
    else
      some (⟨node, sent⟩, 0)
  else
    some (⟨run.node, sent⟩, 0)

def tcpbInputLoop : Nat → TcpbRun → UINT → List UCHAR → Int → Option (TcpbRun × Int)
  | _, run, _, [], ret => some (run, ret)
  | 0, _, _, _ :: _, _ => none
  | fuel + 1, run, sn, payload, _ =>
    if holeDataGetFilledSize run.node.holedata = 0 then
      tcpbSendAndSave numUpAlign max_buff_size output run sn payload
    else do
      let (run, ret) ← tcpbSaveAndSend numUpAlign max_buff_size output run sn payload
      if ret ≤ 0 then
        some (run, ret)
      else
        tcpbInputLoop fuel run (sn + BitVec.ofInt 32 ret) (payload.drop ret.toNat) ret

def tcpbFailedSend (run : TcpbRun) : TcpbRun :=
  if holeDataGetContineLen run.node.holedata > 0 then
    { run with sent := run.sent ++ [tcpbContineBuf run.node true] }
  else
    run

def tcpbInput (run : TcpbRun) (sn : UINT) (payload : List UCHAR) : Option (TcpbRun × Int) :=
  if run.node.failed then
    some (run, BsStatus.err.toInt)
  else do
    let (run, ret) ← tcpbInputLoop numUpAlign max_buff_size output payload.length run sn payload 0
    if ret < 0 then
      some (tcpbFailedSend { run with node := { run.node with failed := true } }, ret)
    else
      some (run, ret)

end Operations

end MyCode.Tcpb

/-!
## What the buffer does with a stream

The buffer as a set of positions of the stream, without sequence numbers, bits or memory.
A segment that comes while nothing is saved is handed over as it is; what the reader keeps of
it is saved, and what comes then is put together with it.
-/

namespace MyCode.Tcpb

structure Segment where
  start : Nat
  length : Nat
  short : length < 2 ^ 31

structure Handed where
  start : Nat
  length : Nat
  failed : Bool
  deriving DecidableEq

/-- The positions that were put in since the buffer was empty, and how many bytes they came
with. -/
structure Saved where
  start : Nat
  received : Finset Nat
  count : Nat

/-- `taken` are the parts that the reader has not asked to keep. -/
structure Buffer where
  saved : Option Saved
  failed : Bool
  sent : List Handed
  taken : List (Nat × Nat)

def Buffer.empty : Buffer :=
  ⟨none, false, [], []⟩

abbrev Asks := List Handed → Handed → Option Nat

section Machine

variable (max_buff_size : Nat) (asks : Asks)

/-- The greatest number of positions from the start on that were all received. -/
def Saved.run (saved : Saved) : Nat :=
  Nat.findGreatest (fun n => ∀ i < n, saved.start + i ∈ saved.received) max_buff_size

def Saved.add (saved : Saved) (start length : Nat) : Saved :=
  { saved with
    received := saved.received ∪ Finset.Ico start (start + length)
    count := saved.count + length }

def Buffer.fail (buffer : Buffer) : Buffer :=
  match buffer.saved with
  | none => { buffer with failed := true }
  | some saved =>
    if saved.run max_buff_size = 0 then
      { buffer with failed := true }
    else
      { buffer with
        failed := true
        sent := buffer.sent ++ [⟨saved.start, saved.run max_buff_size, true⟩]
        taken := buffer.taken ++ [(saved.start, saved.run max_buff_size)] }

def Buffer.pass (buffer : Buffer) (start length : Nat) : Buffer :=
  let handed := ⟨start, length, false⟩
  let sent := buffer.sent ++ [handed]
  match asks buffer.sent handed with
  | none => { buffer with sent := sent, taken := buffer.taken ++ [(start, length)] }
  | some place =>
    let taken := buffer.taken ++ [(start, min place length)]
    let kept := min (length - place) max_buff_size
    let saved :=
      if kept = 0 then none
      else some ⟨start + place, Finset.Ico (start + place) (start + place + kept), kept⟩
    let after := { buffer with saved := saved, sent := sent, taken := taken }
    if place > length ∨ kept < length - place then after.fail max_buff_size else after

/-- The part of a segment that fits joins what is saved. -/
def Buffer.join (buffer : Buffer) (saved : Saved) (start length : Nat) : Buffer :=
  let fits := min length (saved.start + max_buff_size - start)
  let joined := saved.add start fits
  if joined.run max_buff_size = saved.run max_buff_size then
    let after := { buffer with saved := some joined }
    if fits < length then after.fail max_buff_size else after
  else
    let handed := ⟨saved.start, joined.run max_buff_size, false⟩
    let sent := buffer.sent ++ [handed]
    match asks buffer.sent handed with
    | none =>
      let after :=
        { buffer with
          saved := none
          sent := sent
          taken := buffer.taken ++ [(saved.start, joined.run max_buff_size)] }
      if fits < length then after.pass max_buff_size asks (start + fits) (length - fits)
      else after
    | some _ =>
      if fits < length then { buffer with saved := none, sent := sent, failed := true }
      else { buffer with saved := some joined, sent := sent }

def Buffer.input (buffer : Buffer) (segment : Segment) : Buffer :=
  if buffer.failed ∨ segment.length = 0 then
    buffer
  else
    match buffer.saved with
    | none => buffer.pass max_buff_size asks segment.start segment.length
    | some saved =>
      if segment.start < saved.start then
        buffer
      else if saved.start + max_buff_size ≤ segment.start then
        buffer.fail max_buff_size
      else
        buffer.join max_buff_size asks saved segment.start segment.length

end Machine

end MyCode.Tcpb
