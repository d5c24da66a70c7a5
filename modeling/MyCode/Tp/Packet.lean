import Mathlib.Logic.Function.Basic
import MyCode.KeepAlive

/-!
# Sockets and packets of the packet protocol

`tp_socket.c`, `tp_protocol.c` and `tp_pkt.c`, with memory for every packet buffer: sockets
and protocols are found by their ids, and a pointer to a socket is its id.  Whatever is
handed to `pfSendFunc` is kept in the order of sending.  Only the socket in hand changes
during a call, so it is stored in the context at the end.
-/

namespace MyCode.Tp

open KeepAlive Function

inductive TpType where
  | protocol
  | conn
  deriving DecidableEq, Repr

inductive TpStatus where
  | init
  | synSend
  | synRcvd
  | establish
  | finWait1
  | finWait2
  | closing
  | timeWait
  | closeWait
  | lastAck
  | closed
  deriving DecidableEq, Repr

def tpSocketFlagNbio : UINT := 0x1

def tpSocketFlagAccepting : UINT := 0x2

def tpProtocolFlagListen : UINT := 0x1

def tpProtoMax : UINT := 0xffff

def tpProtocolMaxAcceptNum : Nat := 32

def tpSendMbufCount : Nat := 16

def tpRecvMbufCount : Nat := 16

/-- `_TP_PKT_HEAD_S` in host order. -/
structure TpPktHead where
  uiProtocolId : UINT
  uiDstTpId : UINT
  uiSrcTpId : UINT
  iSn : UINT
  iAckSn : UINT
  uiPktFlag : UINT
  deriving DecidableEq, Repr

/-- A packet with its head.  No function reads `serial`, which counts the
payloads that its socket accepted before this one. -/
structure Mbuf where
  stHead : TpPktHead
  data : List UCHAR
  serial : Nat
  deriving DecidableEq, Repr

inductive ResendTimer where
  | null
  | running
  | paused
  deriving DecidableEq, Repr

/-- `_TP_SOCKET_S`.  No function reads `accepted` and `pushed`, the payloads that
`_TP_PKT_SendData` accepted and that were pushed on `stRecvMbufQue`. -/
structure TpSocket where
  eType : TpType
  uiFlag : UINT
  uiProtocolId : UINT
  uiListenTpId : UINT
  uiLocalTpId : UINT
  uiPeerTpId : UINT
  uiStatus : TpStatus
  iSn : UINT
  iAckSn : UINT
  stSendMbufQue : List Mbuf
  stRecvMbufQue : List (List UCHAR)
  stKeepAlive : Ka
  usResendCount : Nat
  hResendTImer : ResendTimer
  accepted : List (List UCHAR)
  pushed : List (List UCHAR)
  deriving DecidableEq, Repr

structure TpProtocol where
  uiLocalTpId : UINT
  uiProtocolId : UINT
  uiFlag : UINT
  uiAccepttingNum : UINT
  astAcceptting : List (Option UINT)
  deriving DecidableEq, Repr

structure TpCtrl where
  hSocketNap : UINT → Option TpSocket
  hProtocolNap : UINT → Option TpProtocol
  usDftIdle : USHORT
  usDftIntval : USHORT
  usDftMaxProbeCount : USHORT
  sent : List Mbuf

def tpCreate : TpCtrl :=
  ⟨fun _ => none, fun _ => none, 3600, 10, 6, []⟩

/-- What the calls of other modules return to the code: the id of a node from
`NAP_ZAlloc`, and whether the rest succeeds. -/
structure TpOutcome where
  socketAlloc : Option UINT
  protocolAlloc : Bool
  createTimer : Bool
  keepAliveStart : Bool

/-- The context and the socket that a function has in its hands. -/
structure TpWork where
  ctrl : TpCtrl
  socket : TpSocket

def TpCtrl.setSocket (ctrl : TpCtrl) (socket : TpSocket) : TpCtrl :=
  { ctrl with hSocketNap := update ctrl.hSocketNap socket.uiLocalTpId (some socket) }

def TpCtrl.setProtocol (ctrl : TpCtrl) (uiProtocolId : UINT) (protocol : Option TpProtocol) :
    TpCtrl :=
  { ctrl with hProtocolNap := update ctrl.hProtocolNap uiProtocolId protocol }

def TpWork.store (work : TpWork) : TpCtrl :=
  work.ctrl.setSocket work.socket

/-- `_TP_Socket_NewSocket` on a zeroed node. -/
def tpSocketNewSocket (ctrl : TpCtrl) (uiTpId : UINT) (eType : TpType) : TpSocket where
  eType := eType
  uiFlag := 0
  uiProtocolId := 0
  uiListenTpId := 0
  uiLocalTpId := uiTpId
  uiPeerTpId := 0
  uiStatus := .init
  iSn := 0
  iAckSn := 0
  stSendMbufQue := []
  stRecvMbufQue := []
  stKeepAlive := ⟨ctrl.usDftIdle, ctrl.usDftIntval, ctrl.usDftMaxProbeCount, false, 0, none⟩
  usResendCount := 0
  hResendTImer := .null
  accepted := []
  pushed := []

def tpProtocolBindProtocol (outcome : TpOutcome) (uiProtocolId : UINT) (work : TpWork) :
    TpWork × BsStatus :=
  if work.socket.eType ≠ .protocol then
    (work, .notSupport)
  else if work.socket.uiProtocolId ≠ 0 then
    (work, .alreadyExist)
  else if (work.ctrl.hProtocolNap uiProtocolId).isSome then
    (work, .conflict)
  else if !outcome.protocolAlloc then
    (work, .noMemory)
  else
    let protocol : TpProtocol :=
      { uiLocalTpId := work.socket.uiLocalTpId
        uiProtocolId := uiProtocolId
        uiFlag := 0
        uiAccepttingNum := 0
        astAcceptting := List.replicate tpProtocolMaxAcceptNum none }
    (⟨work.ctrl.setProtocol uiProtocolId (some protocol),
      { work.socket with uiProtocolId := uiProtocolId }⟩, .ok)

def tpProtocolListen (ctrl : TpCtrl) (socket : TpSocket) : TpCtrl × BsStatus :=
  if socket.eType ≠ .protocol then
    (ctrl, .notSupport)
  else if socket.uiProtocolId = 0 then
    (ctrl, .notReady)
  else
    match ctrl.hProtocolNap socket.uiProtocolId with
    | none => (ctrl, .ok)
    | some protocol =>
      (ctrl.setProtocol socket.uiProtocolId
        (some { protocol with uiFlag := protocol.uiFlag ||| tpProtocolFlagListen }), .ok)

def tpProtocolCanAccepting (protocol : TpProtocol) : Bool :=
  hasFlag protocol.uiFlag tpProtocolFlagListen &&
    decide (protocol.uiAccepttingNum.toNat < tpProtocolMaxAcceptNum)

/-- `_TP_Protocol_AddAccepting`, which fails where no slot is free. -/
def tpProtocolAddAccepting (protocol : TpProtocol) (socket : TpSocket) :
    Option (TpProtocol × TpSocket) :=
  match protocol.astAcceptting.findIdx? fun slot => slot == none with
  | none => none
  | some i =>
    some ({ protocol with
        astAcceptting := protocol.astAcceptting.set i (some socket.uiLocalTpId)
        uiAccepttingNum := protocol.uiAccepttingNum + 1 },
      { socket with uiFlag := socket.uiFlag ||| tpSocketFlagAccepting })

def tpProtocolDelAccepting (protocol : TpProtocol) (socket : TpSocket) : TpProtocol × TpSocket :=
  match protocol.astAcceptting.findIdx? fun slot => slot == some socket.uiLocalTpId with
  | none => (protocol, socket)
  | some i =>
    ({ protocol with
        astAcceptting := protocol.astAcceptting.set i none
        uiAccepttingNum := protocol.uiAccepttingNum - 1 },
      { socket with uiFlag := socket.uiFlag &&& ~~~tpSocketFlagAccepting })

/-- The loop of `_TP_Protocol_Accept`: the first slot with an established
socket. -/
def tpProtocolFindAccepted (ctrl : TpCtrl) (slots : List (Option UINT)) : Option (Nat × TpSocket) :=
  match slots.findIdx? fun slot =>
    (slot.bind ctrl.hSocketNap).any fun socket => socket.uiStatus == .establish with
  | none => none
  | some i => ((slots[i]?.join).bind ctrl.hSocketNap).map fun socket => (i, socket)

def tpProtocolAccept (ctrl : TpCtrl) (socket : TpSocket) : TpCtrl × UINT × BsStatus :=
  if socket.eType ≠ .protocol then
    (ctrl, 0, .notSupport)
  else if socket.uiProtocolId = 0 then
    (ctrl, 0, .notReady)
  else
    match ctrl.hProtocolNap socket.uiProtocolId with
    | none => (ctrl, 0, .ok)
    | some protocol =>
      match tpProtocolFindAccepted ctrl protocol.astAcceptting with
      | none => (ctrl, 0, .ok)
      | some (i, accepted) =>
        let ctrl := ctrl.setSocket
          { accepted with uiFlag := accepted.uiFlag &&& ~~~tpSocketFlagAccepting }
        let ctrl := ctrl.setProtocol socket.uiProtocolId (some { protocol with
          astAcceptting := protocol.astAcceptting.set i none
          uiAccepttingNum := protocol.uiAccepttingNum - 1 })
        (ctrl, accepted.uiLocalTpId, .ok)

def tpSocketAbort (work : TpWork) : TpWork :=
  let work :=
    if hasFlag work.socket.uiFlag tpSocketFlagAccepting then
      match work.ctrl.hProtocolNap work.socket.uiProtocolId with
      | none => work
      | some protocol =>
        let deleted := tpProtocolDelAccepting protocol work.socket
        ⟨work.ctrl.setProtocol work.socket.uiProtocolId (some deleted.1), deleted.2⟩
    else
      work
  { work with socket.uiStatus := .closed }

def tpSocketFindSocket (ctrl : TpCtrl) (uiTpId : UINT) : Option TpSocket :=
  ctrl.hSocketNap uiTpId

def tpSocketFreeSocket (ctrl : TpCtrl) (uiTpId : UINT) : TpCtrl :=
  { ctrl with hSocketNap := update ctrl.hSocketNap uiTpId none }

def tpSocketSetOptNbio (nbio : Bool) (socket : TpSocket) : TpSocket :=
  if nbio then
    { socket with uiFlag := socket.uiFlag ||| tpSocketFlagNbio }
  else
    { socket with uiFlag := socket.uiFlag &&& ~~~tpSocketFlagNbio }

def tpSocketSetOptKeepAliveTime (usIdle usIntval usMaxProbeCount : USHORT) (socket : TpSocket) :
    TpSocket :=
  { socket with stKeepAlive := kaReset { socket.stKeepAlive with
      usIdle := usIdle, usIntval := usIntval, usMaxProbeCount := usMaxProbeCount } }

/-- `_TP_Protocol_UnBindProtocol` frees the sockets in the slots. -/
def tpProtocolUnBindProtocol (ctrl : TpCtrl) (socket : TpSocket) : TpCtrl :=
  if socket.eType ≠ .protocol then
    ctrl
  else if socket.uiProtocolId = 0 then
    ctrl
  else
    match ctrl.hProtocolNap socket.uiProtocolId with
    | none => ctrl
    | some protocol =>
      let ctrl := (protocol.astAcceptting.filterMap id).foldl tpSocketFreeSocket ctrl
      let ctrl := ctrl.setProtocol socket.uiProtocolId none
      match ctrl.hSocketNap socket.uiLocalTpId with
      | none => ctrl
      | some socket => ctrl.setSocket { socket with uiProtocolId := 0 }

def tpPktFlagData : UINT := 0x1

def tpPktFlagSyn : UINT := 0x2

def tpPktFlagAck : UINT := 0x4

def tpPktFlagKeepAlive : UINT := 0x8

def tpPktFlagFin : UINT := 0x10

def tpPktFlagRst : UINT := 0x20

def tpPktMaxResendCount : Nat := 5

def tpPktFillPktHeader (socket : TpSocket) (uiPktFlag : UINT) : TpPktHead where
  uiProtocolId := socket.uiProtocolId
  uiDstTpId := socket.uiPeerTpId
  uiSrcTpId := socket.uiLocalTpId
  iSn := socket.iSn
  iAckSn := socket.iAckSn
  uiPktFlag := uiPktFlag

def tpPktBuildProtocolPkt (socket : TpSocket) (uiPktFlag : UINT) : Mbuf :=
  ⟨tpPktFillPktHeader socket uiPktFlag, [], socket.accepted.length⟩

def tpPktIsPktTakeSn (uiPktFlag : UINT) : Bool :=
  hasFlag uiPktFlag (tpPktFlagData ||| tpPktFlagSyn ||| tpPktFlagFin)

def tpPktBuildRstPkt (recved : TpPktHead) : Mbuf where
  stHead :=
    { uiProtocolId := recved.uiProtocolId
      uiDstTpId := recved.uiSrcTpId
      uiSrcTpId := recved.uiDstTpId
      iSn := recved.iAckSn
      iAckSn := if tpPktIsPktTakeSn recved.uiPktFlag then recved.iSn + 1 else recved.iSn
      uiPktFlag := tpPktFlagRst }
  data := []
  serial := 0

def tpPktSendPkt (ctrl : TpCtrl) (mbuf : Mbuf) : TpCtrl :=
  { ctrl with sent := ctrl.sent ++ [mbuf] }

def tpPktSendRst (ctrl : TpCtrl) (pkt : TpPktHead) : TpCtrl :=
  tpPktSendPkt ctrl (tpPktBuildRstPkt pkt)

def TpWork.send (work : TpWork) (mbuf : Mbuf) : TpWork :=
  { work with ctrl := tpPktSendPkt work.ctrl mbuf }

def tpPktStartResendTimer (outcome : TpOutcome) (work : TpWork) : TpWork :=
  match work.socket.hResendTImer with
  | .null =>
    if outcome.createTimer then
      { work with socket.hResendTImer := .running }
    else
      tpSocketAbort work
  | _ => { work with socket.hResendTImer := .running }

def tpPktStopResendTimer (work : TpWork) : TpWork :=
  match work.socket.hResendTImer with
  | .null => work
  | _ => { work with socket.hResendTImer := .paused, socket.usResendCount := 0 }

def tpPktRecordAndSendPkt (outcome : TpOutcome) (work : TpWork) (mbuf : Mbuf) : TpWork :=
  let work := { work with
    socket.stSendMbufQue := work.socket.stSendMbufQue ++ [mbuf]
    socket.iSn := work.socket.iSn + 1 }
  if work.socket.stSendMbufQue.length = 1 then
    tpPktStartResendTimer outcome (work.send mbuf)
  else
    work

def tpPktSendSynAck (outcome : TpOutcome) (work : TpWork) : TpWork :=
  tpPktRecordAndSendPkt outcome work
    (tpPktBuildProtocolPkt work.socket (tpPktFlagSyn ||| tpPktFlagAck))

def tpPktSendAck (work : TpWork) : TpWork :=
  work.send (tpPktBuildProtocolPkt work.socket tpPktFlagAck)

def tpPtkSendQueMbuf (work : TpWork) : TpWork :=
  match work.socket.stSendMbufQue.head? with
  | none => work
  | some mbuf => work.send mbuf

def tpPktSendSyn (outcome : TpOutcome) (work : TpWork) : TpWork :=
  let work := { work with socket.uiStatus := .synSend }
  tpPktRecordAndSendPkt outcome work (tpPktBuildProtocolPkt work.socket tpPktFlagSyn)

/-- `_TP_PKT_SendData`. -/
def tpPktSendData (outcome : TpOutcome) (data : List UCHAR) (work : TpWork) : TpWork × BsStatus :=
  if work.socket.eType ≠ .conn then
    (work, .notSupport)
  else if work.socket.uiStatus ≠ .establish then
    (work, .notReady)
  else if tpSendMbufCount ≤ work.socket.stSendMbufQue.length then
    (work, .again)
  else
    let mbuf : Mbuf :=
      ⟨tpPktFillPktHeader work.socket tpPktFlagData, data, work.socket.accepted.length⟩
    let work := { work with socket.accepted := work.socket.accepted ++ [data] }
    (tpPktRecordAndSendPkt outcome work mbuf, .ok)

def tpPktResendTimeOut (work : TpWork) : TpWork :=
  if tpPktMaxResendCount ≤ work.socket.usResendCount then
    tpSocketAbort work
  else
    tpPtkSendQueMbuf { work with socket.usResendCount := work.socket.usResendCount + 1 }

def tpPktSendKeepAlive (work : TpWork) : TpWork :=
  if work.socket.uiStatus ≠ .establish then
    work
  else
    work.send (tpPktBuildProtocolPkt work.socket tpPktFlagKeepAlive)

/-- `ka_KeepAlive` with the functions of `_TP_PKT_InitKeepAlive`. -/
def tpPktKeepAlive (work : TpWork) : TpWork :=
  let probe := kaKeepAlive work.socket.stKeepAlive
  let work := { work with socket.stKeepAlive := probe.1 }
  if probe.2 then tpSocketAbort work else tpPktSendKeepAlive work

def tpPktStartKeepAlive (outcome : TpOutcome) (work : TpWork) : TpWork × BsStatus :=
  if work.socket.uiStatus ≠ .establish then
    (work, .err)
  else
    let start := kaStart work.socket.stKeepAlive outcome.keepAliveStart
    ({ work with socket.stKeepAlive := start.1 }, start.2)

def tpPktResetKeepAlive (socket : TpSocket) : TpSocket :=
  { socket with stKeepAlive := kaReset socket.stKeepAlive }

/-- The signed difference of the sequence numbers is positive. -/
def tpPktIsAcked (iAckSn : UINT) (mbuf : Mbuf) : Bool :=
  decide (0 < (iAckSn - mbuf.stHead.iSn).toInt)

/-- The loop of `tp_pkt_AckInput` frees packets from the head of the queue up to
the first one that is not acknowledged. -/
def tpPktAckInput (pkt : TpPktHead) (work : TpWork) : TpWork :=
  let que := work.socket.stSendMbufQue.dropWhile (tpPktIsAcked pkt.iAckSn)
  let usResendCount :=
    if que.length < work.socket.stSendMbufQue.length then 0 else work.socket.usResendCount
  let work := { work with socket.stSendMbufQue := que, socket.usResendCount := usResendCount }
  if que = [] then tpPktStopResendTimer work else tpPtkSendQueMbuf work

def tpPktRstInput (pkt : TpPktHead) (work : TpWork) : TpWork :=
  if pkt.iAckSn = work.socket.iSn ∧ pkt.iSn = work.socket.iAckSn ∧
      work.socket.uiStatus ≠ .closed then
    tpSocketAbort work
  else
    work

def tpPktEstablish (outcome : TpOutcome) (pkt : TpPktHead) (work : TpWork) : TpWork × BsStatus :=
  let started := tpPktStartKeepAlive outcome { work with socket.uiStatus := .establish }
  if started.2 ≠ .ok then (tpSocketAbort started.1, .err) else (tpPktAckInput pkt started.1, .ok)

def tpPktAck1Input (outcome : TpOutcome) (pkt : TpPktHead) (work : TpWork) : TpWork × BsStatus :=
  if pkt.iAckSn = work.socket.iSn ∧ work.socket.uiStatus = .synSend then
    tpPktEstablish outcome pkt work
  else
    (work, .ok)

def tpPktAck2Input (outcome : TpOutcome) (pkt : TpPktHead) (work : TpWork) : TpWork × BsStatus :=
  if work.socket.iSn ≠ pkt.iAckSn ∨ work.socket.iAckSn ≠ pkt.iSn then
    (work, .outOfRange)
  else
    tpPktEstablish outcome pkt work

def tpPktKeepAliveInput (pkt : TpPktHead) (work : TpWork) : TpWork :=
  if pkt.iAckSn = work.socket.iSn ∧ pkt.iSn = work.socket.iAckSn ∧
      work.socket.uiStatus = .establish then
    tpPktSendAck work
  else
    work

def tpPktFindSocket (ctrl : TpCtrl) (pkt : TpPktHead) : Option TpSocket :=
  match tpSocketFindSocket ctrl pkt.uiDstTpId with
  | none => none
  | some socket =>
    if socket.uiPeerTpId ≠ 0 ∧ socket.uiPeerTpId ≠ pkt.uiSrcTpId then none else some socket

def tpPktSynInput (outcome : TpOutcome) (ctrl : TpCtrl) (pkt : TpPktHead) : TpCtrl × BsStatus :=
  if !hasFlag pkt.uiPktFlag tpPktFlagSyn then
    (tpPktSendRst ctrl pkt, .noSuch)
  else
    match ctrl.hProtocolNap pkt.uiProtocolId with
    | none => (tpPktSendRst ctrl pkt, .noSuch)
    | some protocol =>
      if !tpProtocolCanAccepting protocol then
        (tpPktSendRst ctrl pkt, .noResource)
      else
        match outcome.socketAlloc with
        | none => (tpPktSendRst ctrl pkt, .noMemory)
        | some uiTpId =>
          let socket := { tpSocketNewSocket ctrl uiTpId .conn with
            uiProtocolId := pkt.uiProtocolId
            uiPeerTpId := pkt.uiSrcTpId
            iAckSn := pkt.iSn + 1
            uiStatus := .synRcvd
            uiListenTpId := protocol.uiLocalTpId }
          match tpProtocolAddAccepting protocol socket with
          | none => (tpPktSendRst ctrl pkt, .noResource)
          | some (protocol, socket) =>
            let work := tpPktSendSynAck outcome
              ⟨ctrl.setProtocol pkt.uiProtocolId (some protocol), socket⟩
            (work.store, .ok)

/-- What a packet with the flag `SYN` does to a socket. -/
def tpPktSynFlagIn (pkt : TpPktHead) (work : TpWork) : TpWork :=
  if hasFlag pkt.uiPktFlag tpPktFlagSyn then
    tpPktSendAck { work with socket.iAckSn := pkt.iSn + 1 }
  else
    work

/-- What a packet with the flag `ACK` does to a socket. -/
def tpPktAckFlagIn (outcome : TpOutcome) (pkt : TpPktHead) (work : TpWork) : TpWork :=
  if hasFlag pkt.uiPktFlag tpPktFlagAck then
    match work.socket.uiStatus with
    | .synSend => (tpPktAck1Input outcome pkt work).1
    | .synRcvd => (tpPktAck2Input outcome pkt work).1
    | _ => tpPktAckInput pkt work
  else
    work

def tpPktFlagsIn (outcome : TpOutcome) (pkt : TpPktHead) (work : TpWork) : TpWork :=
  let work := tpPktAckFlagIn outcome pkt (tpPktSynFlagIn pkt work)
  let work :=
    if hasFlag pkt.uiPktFlag tpPktFlagKeepAlive then tpPktKeepAliveInput pkt work else work
  if hasFlag pkt.uiPktFlag tpPktFlagRst then tpPktRstInput pkt work else work

def tpPktProtocolPktIn (outcome : TpOutcome) (ctrl : TpCtrl) (pkt : TpPktHead) :
    TpCtrl × BsStatus :=
  if pkt.uiProtocolId = 0 ∨ tpProtoMax < pkt.uiProtocolId then
    (ctrl, .notSupport)
  else if pkt.uiDstTpId = 0 then
    tpPktSynInput outcome ctrl pkt
  else
    match tpPktFindSocket ctrl pkt with
    | none =>
      if !hasFlag pkt.uiPktFlag tpPktFlagRst then
        (tpPktSendRst ctrl pkt, .noSuch)
      else
        (ctrl, .noSuch)
    | some socket =>
      let socket := tpPktResetKeepAlive socket
      if socket.uiStatus = .synSend then
        if !hasFlag pkt.uiPktFlag tpPktFlagAck then
          (ctrl.setSocket socket, .err)
        else
          ((tpPktFlagsIn outcome pkt
            ⟨ctrl, { socket with uiPeerTpId := pkt.uiSrcTpId }⟩).store, .ok)
      else
        ((tpPktFlagsIn outcome pkt ⟨ctrl, socket⟩).store, .ok)

def tpPktDataInput (ctrl : TpCtrl) (data : List UCHAR) (pkt : TpPktHead) : TpCtrl × BsStatus :=
  if data = [] then
    (ctrl, .ok)
  else
    match tpPktFindSocket ctrl pkt with
    | none => (tpPktSendRst ctrl pkt, .noSuch)
    | some socket =>
      if socket.eType ≠ .conn then
        (tpPktSendRst ctrl pkt, .noSuch)
      else
        let socket := tpPktResetKeepAlive socket
        if socket.uiStatus ≠ .establish ∨ tpRecvMbufCount ≤ socket.stRecvMbufQue.length then
          (ctrl.setSocket socket, .err)
        else if pkt.iSn = socket.iAckSn then
          let work := tpPktSendAck ⟨ctrl, { socket with iAckSn := socket.iAckSn + 1 }⟩
          ({ work with
              socket.stRecvMbufQue := work.socket.stRecvMbufQue ++ [data]
              socket.pushed := work.socket.pushed ++ [data] }.store, .ok)
        else
          ((tpPktSendAck ⟨ctrl, socket⟩).store, .ok)

def tpPktInput (outcome : TpOutcome) (ctrl : TpCtrl) (mbuf : Mbuf) : TpCtrl × BsStatus :=
  if !hasFlag mbuf.stHead.uiPktFlag tpPktFlagData then
    tpPktProtocolPktIn outcome ctrl mbuf.stHead
  else
    tpPktDataInput ctrl mbuf.data mbuf.stHead

end MyCode.Tp
