import MyCode.Vbuf
import MyCode.Net
import MyCode.Lib.Transition

/-!
# Messages over a stream

`dstream/dstream_utl.c`: a message is sent as its length in 4 bytes and its data.  A call of
the socket takes or gives at most a number of bytes that the socket chooses; with 0 bytes the
answer is `SOCKET_E_AGAIN`.
-/

namespace MyCode.Dstream

open Lib Vbuf

inductive DstreamRecvState where
  | head
  | data
  deriving DecidableEq

structure DstreamS where
  stWriteVBuf : VbufS
  stReadVBuf : VbufS
  uiRemainReadLen : UINT
  bitIsBlock : Bool
  enState : DstreamRecvState

/-- The length of a message is a `UINT`. -/
structure Message where
  data : List UCHAR
  short : data.length < 2 ^ 32

def Message.uiDataLen (message : Message) : UINT :=
  BitVec.ofNat 32 message.data.length

def dstreamInit (memory : Memory) : Option DstreamS := do
  let stReadVBuf ← vbufExpandTo memory vbufInit 256
  some ⟨vbufInit, stReadVBuf, 0, false, .head⟩

/-- The bytes that `Socket_Write` hands to the channel, and their number. -/
def socketWrite (channel bytes : List UCHAR) (count : Nat) : List UCHAR × Nat :=
  (channel ++ bytes.take count, min count bytes.length)

/-- `Socket_WriteUntilFinish` sends everything. -/
def dstreamWriteSyn (dstream : DstreamS) (channel : List UCHAR) (message : Message) :
    DstreamS × List UCHAR × BsStatus :=
  (dstream, channel ++ (List.range 4).map (uintBytes message.uiDataLen) ++ message.data, .ok)

def dstreamWriteVBuf (dstream : DstreamS) (channel : List UCHAR) (count : Nat) :
    Option (DstreamS × List UCHAR) := do
  let bytes ← vbufData dstream.stWriteVBuf
  let (channel, uiSendLen) := socketWrite channel bytes count
  some ({ dstream with stWriteVBuf := vbufEarseHead dstream.stWriteVBuf uiSendLen }, channel)

def dstreamWriteOrSave (memory : Memory) (dstream : DstreamS) (channel bytes : List UCHAR)
    (count : Nat) : Option (DstreamS × List UCHAR) :=
  let (channel, uiSendLen) := socketWrite channel bytes count
  if uiSendLen < bytes.length then do
    let vbuf ← vbufCatBuf memory dstream.stWriteVBuf bytes
    some ({ dstream with stWriteVBuf := vbuf }, channel)
  else
    some (dstream, channel)

def dstreamWriteMessage (memory : Memory) (dstream : DstreamS) (channel : List UCHAR)
    (message : Message) (head rest : Nat) : Option (DstreamS × List UCHAR × BsStatus) := do
  let (dstream, channel) ← dstreamWriteOrSave memory dstream channel
    ((List.range 4).map (uintBytes message.uiDataLen)) head
  let (dstream, channel) ← dstreamWriteOrSave memory dstream channel message.data rest
  some (dstream, channel, .ok)

def dstreamWriteAsyn (memory : Memory) (dstream : DstreamS) (channel : List UCHAR)
    (message : Message) (flush head rest : Nat) : Option (DstreamS × List UCHAR × BsStatus) :=
  if dstream.stWriteVBuf.ulUsedLen > 0 then do
    let (dstream, channel) ← dstreamWriteVBuf dstream channel flush
    if dstream.stWriteVBuf.ulUsedLen > 0 then
      some (dstream, channel, .again)
    else
      dstreamWriteMessage memory dstream channel message head rest
  else
    dstreamWriteMessage memory dstream channel message head rest

def dstreamWrite (memory : Memory) (dstream : DstreamS) (channel : List UCHAR)
    (message : Message) (flush head rest : Nat) : Option (DstreamS × List UCHAR × BsStatus) :=
  if dstream.bitIsBlock then
    some (dstreamWriteSyn dstream channel message)
  else
    dstreamWriteAsyn memory dstream channel message flush head rest

/-- What follows a read in the state `DSTREAM_RECV_STATE_HEAD`, however short it was. -/
def dstreamReadHead (memory : Memory) (dstream : DstreamS) : Option DstreamS := do
  let bytes ← dstream.stReadVBuf.pucData.copyOut dstream.stReadVBuf.ulOffset 4
  let uiRemainReadLen := ntohl (bytesUint bytes)
  let vbuf := vbufEarseHead dstream.stReadVBuf 4
  let vbuf ← vbufExpandTo memory vbuf uiRemainReadLen.toNat
  some
    { dstream with stReadVBuf := vbuf, uiRemainReadLen := uiRemainReadLen, enState := .data }

/-- The answer to `SOCKET_E_AGAIN`. -/
def dstreamStarved (dstream : DstreamS) : BsStatus :=
  if dstream.bitIsBlock then .err else .again

/-- The loop of `_dstream_ReadAsyn` and `_dstream_ReadSyn`; the list says how much the socket
gives each time. -/
def dstreamReadLoop (memory : Memory) :
    List Nat → DstreamS → List UCHAR → Option (DstreamS × List UCHAR × BsStatus)
  | [], dstream, channel =>
    if dstream.uiRemainReadLen = 0 then
      some ({ dstream with enState := .head, uiRemainReadLen := 4 }, channel, .ok)
    else
      some (dstream, channel, dstreamStarved dstream)
  | count :: counts, dstream, channel =>
    if dstream.uiRemainReadLen = 0 then
      some ({ dstream with enState := .head, uiRemainReadLen := 4 }, channel, .ok)
    else
      let iLen := min count (min dstream.uiRemainReadLen.toNat channel.length)
      if iLen = 0 then
        some (dstream, channel, dstreamStarved dstream)
      else do
        let vbuf ← vbufFillTail dstream.stReadVBuf (channel.take iLen)
        let dstream :=
          { dstream with
            stReadVBuf := vbuf
            uiRemainReadLen := dstream.uiRemainReadLen - BitVec.ofNat 32 iLen }
        match dstream.enState with
        | .head => do
            let dstream ← dstreamReadHead memory dstream
            dstreamReadLoop memory counts dstream (channel.drop iLen)
        | .data => dstreamReadLoop memory counts dstream (channel.drop iLen)

/-- The two ends, the bytes under way, and the messages that were accepted and returned. -/
structure DstreamRun where
  writer : DstreamS
  reader : DstreamS
  channel : List UCHAR
  written : List (List UCHAR)
  returned : List (List UCHAR)

/-- `flush`, `head` and `rest` are what the socket takes of the saved bytes, of the length
and of the data. -/
inductive DstreamCall where
  | write (message : Message) (memory : Memory) (flush head rest : Nat)
  | read (memory : Memory) (counts : List Nat)

def DstreamCall.run (run : DstreamRun) : DstreamCall → Option DstreamRun
  | write message memory flush head rest => do
      let (writer, channel, status) ←
        dstreamWrite memory run.writer run.channel message flush head rest
      let written := if status = .ok then run.written ++ [message.data] else run.written
      some { run with writer := writer, channel := channel, written := written }
  | read memory counts => do
      let (reader, channel, status) ← dstreamReadLoop memory counts run.reader run.channel
      let data ← vbufData reader.stReadVBuf
      let returned := if status = .ok then run.returned ++ [data] else run.returned
      some { run with reader := reader, channel := channel, returned := returned }

/-- Both ends are fresh; their owners say whether they block. -/
def dstreamSystem : System DstreamRun DstreamCall where
  start run := ∃ writerMemory readerMemory writer reader writerBlocks readerBlocks,
    dstreamInit writerMemory = some writer ∧ dstreamInit readerMemory = some reader ∧
      run = ⟨{ writer with bitIsBlock := writerBlocks }, { reader with bitIsBlock := readerBlocks },
        [], [], []⟩
  step run call after := call.run run = some after

end MyCode.Dstream
