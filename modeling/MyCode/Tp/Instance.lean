import MyCode.Lib.Transition
import MyCode.Tp.Packet

/-!
# Calls of an instance

The functions of `tp_utl.c` and the timers of the sockets.  A blocking connect
ends here where it begins to wait.
-/

namespace MyCode.Tp

open KeepAlive

def tpWithSocket (ctrl : TpCtrl) (uiTpId : UINT) (call : TpSocket → TpCtrl × BsStatus) :
    TpCtrl × BsStatus :=
  if uiTpId = 0 then
    (ctrl, .badPara)
  else
    match tpSocketFindSocket ctrl uiTpId with
    | none => (ctrl, .noSuch)
    | some socket => call socket

def tpSocket (outcome : TpOutcome) (ctrl : TpCtrl) (eType : TpType) : TpCtrl × UINT :=
  match outcome.socketAlloc with
  | none => (ctrl, 0)
  | some uiTpId => (ctrl.setSocket (tpSocketNewSocket ctrl uiTpId eType), uiTpId)

def tpBind (outcome : TpOutcome) (ctrl : TpCtrl) (uiTpId uiProtocolId : UINT) : TpCtrl × BsStatus :=
  if uiTpId = 0 then
    (ctrl, .badPara)
  else if tpProtoMax < uiProtocolId ∨ uiProtocolId = 0 then
    (ctrl, .outOfRange)
  else
    match tpSocketFindSocket ctrl uiTpId with
    | none => (ctrl, .noSuch)
    | some socket =>
      let bound := tpProtocolBindProtocol outcome uiProtocolId ⟨ctrl, socket⟩
      (bound.1.store, bound.2)

def tpListen (ctrl : TpCtrl) (uiTpId : UINT) : TpCtrl × BsStatus :=
  tpWithSocket ctrl uiTpId fun socket => tpProtocolListen ctrl socket

def tpConnect (outcome : TpOutcome) (ctrl : TpCtrl) (uiTpId uiProtocolId : UINT) :
    TpCtrl × BsStatus :=
  if uiTpId = 0 then
    (ctrl, .badPara)
  else if uiProtocolId = 0 then
    (ctrl, .badPara)
  else
    match tpSocketFindSocket ctrl uiTpId with
    | none => (ctrl, .noSuch)
    | some socket =>
      if socket.eType ≠ .conn then
        (ctrl, .notSupport)
      else if socket.uiStatus ≠ .init then
        (ctrl, .alreadyExist)
      else
        ((tpPktSendSyn outcome ⟨ctrl, { socket with uiProtocolId := uiProtocolId }⟩).store, .ok)

def tpAccept (ctrl : TpCtrl) (uiTpId : UINT) : TpCtrl × UINT × BsStatus :=
  if uiTpId = 0 then
    (ctrl, 0, .badPara)
  else
    match tpSocketFindSocket ctrl uiTpId with
    | none => (ctrl, 0, .noSuch)
    | some socket => tpProtocolAccept ctrl socket

def tpSetOptNbio (ctrl : TpCtrl) (uiTpId : UINT) (nbio : Bool) : TpCtrl × BsStatus :=
  tpWithSocket ctrl uiTpId fun socket => (ctrl.setSocket (tpSocketSetOptNbio nbio socket), .ok)

def tpSetOptKeepAliveTime (ctrl : TpCtrl) (uiTpId : UINT)
    (usIdle usIntval usMaxProbeCount : USHORT) : TpCtrl × BsStatus :=
  tpWithSocket ctrl uiTpId fun socket =>
    (ctrl.setSocket (tpSocketSetOptKeepAliveTime usIdle usIntval usMaxProbeCount socket), .ok)

def tpSetDftKeepAlive (ctrl : TpCtrl) (usIdle usIntval usMaxProbeCount : USHORT) : TpCtrl :=
  { ctrl with
    usDftIdle := usIdle, usDftIntval := usIntval, usDftMaxProbeCount := usMaxProbeCount }

def tpSendMbuf (outcome : TpOutcome) (ctrl : TpCtrl) (uiTpId : UINT) (data : List UCHAR) :
    TpCtrl × BsStatus :=
  tpWithSocket ctrl uiTpId fun socket =>
    let sent := tpPktSendData outcome data ⟨ctrl, socket⟩
    (sent.1.store, sent.2)

def tpRecvMbuf (ctrl : TpCtrl) (uiTpId : UINT) : TpCtrl × Option (List UCHAR) :=
  if uiTpId = 0 then
    (ctrl, none)
  else
    match tpSocketFindSocket ctrl uiTpId with
    | none => (ctrl, none)
    | some socket =>
      (ctrl.setSocket { socket with stRecvMbufQue := socket.stRecvMbufQue.tail },
        socket.stRecvMbufQue.head?)

def tpClose (ctrl : TpCtrl) (uiTpId : UINT) : TpCtrl × BsStatus :=
  tpWithSocket ctrl uiTpId fun socket =>
    (tpSocketFreeSocket (tpProtocolUnBindProtocol ctrl socket) uiTpId, .ok)

/-- The timers and `TP_TiggerKeepAlive` find the socket as well. -/
def tpTimer (ctrl : TpCtrl) (uiTpId : UINT) (timeOut : TpWork → TpWork) : TpCtrl :=
  match tpSocketFindSocket ctrl uiTpId with
  | none => ctrl
  | some socket => (timeOut ⟨ctrl, socket⟩).store

def tpTiggerKeepAlive (ctrl : TpCtrl) (uiTpId : UINT) : TpCtrl :=
  if uiTpId = 0 then ctrl else tpTimer ctrl uiTpId tpPktKeepAlive

inductive TpCall where
  | socket (eType : TpType)
  | bind (uiTpId uiProtocolId : UINT)
  | listen (uiTpId : UINT)
  | connect (uiTpId uiProtocolId : UINT)
  | accept (uiTpId : UINT)
  | setOptNbio (uiTpId : UINT) (nbio : Bool)
  | setOptKeepAliveTime (uiTpId : UINT) (usIdle usIntval usMaxProbeCount : USHORT)
  | setDftKeepAlive (usIdle usIntval usMaxProbeCount : USHORT)
  | sendMbuf (uiTpId : UINT) (data : List UCHAR)
  | recvMbuf (uiTpId : UINT)
  | close (uiTpId : UINT)
  | tiggerKeepAlive (uiTpId : UINT)
  | resendTimeOut (uiTpId : UINT)
  | keepAliveTimeOut (uiTpId : UINT)
  | pktInput (mbuf : Mbuf)

namespace TpCall

def run (outcome : TpOutcome) (ctrl : TpCtrl) : TpCall → TpCtrl
  | socket eType => (tpSocket outcome ctrl eType).1
  | bind uiTpId uiProtocolId => (tpBind outcome ctrl uiTpId uiProtocolId).1
  | listen uiTpId => (tpListen ctrl uiTpId).1
  | connect uiTpId uiProtocolId => (tpConnect outcome ctrl uiTpId uiProtocolId).1
  | accept uiTpId => (tpAccept ctrl uiTpId).1
  | setOptNbio uiTpId nbio => (tpSetOptNbio ctrl uiTpId nbio).1
  | setOptKeepAliveTime uiTpId usIdle usIntval usMaxProbeCount =>
    (tpSetOptKeepAliveTime ctrl uiTpId usIdle usIntval usMaxProbeCount).1
  | setDftKeepAlive usIdle usIntval usMaxProbeCount =>
    tpSetDftKeepAlive ctrl usIdle usIntval usMaxProbeCount
  | sendMbuf uiTpId data => (tpSendMbuf outcome ctrl uiTpId data).1
  | recvMbuf uiTpId => (tpRecvMbuf ctrl uiTpId).1
  | close uiTpId => (tpClose ctrl uiTpId).1
  | tiggerKeepAlive uiTpId => tpTiggerKeepAlive ctrl uiTpId
  | resendTimeOut uiTpId => tpTimer ctrl uiTpId tpPktResendTimeOut
  | keepAliveTimeOut uiTpId => tpTimer ctrl uiTpId tpPktKeepAlive
  | pktInput mbuf => (tpPktInput outcome ctrl mbuf).1

/-- Timers run out while they are linked, and a new node has an id that is not
in use. -/
def Enabled (outcome : TpOutcome) (ctrl : TpCtrl) (call : TpCall) : Prop :=
  (∀ uiTpId, outcome.socketAlloc = some uiTpId → uiTpId ≠ 0 ∧ ctrl.hSocketNap uiTpId = none) ∧
    match call with
    | resendTimeOut uiTpId =>
      ∃ socket, ctrl.hSocketNap uiTpId = some socket ∧ socket.hResendTImer = .running
    | keepAliveTimeOut uiTpId =>
      ∃ socket, ctrl.hSocketNap uiTpId = some socket ∧ socket.stKeepAlive.vclock.isSome
    | _ => True

instance (outcome : TpOutcome) (ctrl : TpCtrl) (call : TpCall) :
    Decidable (call.Enabled outcome ctrl) :=
  @instDecidableAnd _ _
    (@Option.decidableForallMem _
      (fun uiTpId => uiTpId ≠ 0 ∧ ctrl.hSocketNap uiTpId = none) (fun _ => instDecidableAnd) _)
    (match call with
      | resendTimeOut uiTpId => inferInstanceAs (Decidable (∃ socket ∈ ctrl.hSocketNap uiTpId,
          socket.hResendTImer = .running))
      | keepAliveTimeOut uiTpId => inferInstanceAs (Decidable (∃ socket ∈ ctrl.hSocketNap uiTpId,
          socket.stKeepAlive.vclock.isSome))
      | socket _ | bind _ _ | listen _ | connect _ _ | accept _ | setOptNbio _ _
      | setOptKeepAliveTime _ _ _ _ | setDftKeepAlive _ _ _ | sendMbuf _ _ | recvMbuf _ | close _
      | tiggerKeepAlive _ | pktInput _ => isTrue trivial)

def packet : TpCall → Option Mbuf
  | pktInput mbuf => some mbuf
  | _ => none

def isClose : TpCall → Bool
  | close _ => true
  | _ => false

end TpCall

def tp : Lib.System TpCtrl (TpOutcome × TpCall) where
  start ctrl := ctrl = tpCreate
  step ctrl label after := label.2.Enabled label.1 ctrl ∧ after = label.2.run label.1 ctrl

inductive Endpoint where
  | connector
  | acceptor
  deriving DecidableEq, Repr

def Endpoint.other : Endpoint → Endpoint
  | connector => acceptor
  | acceptor => connector

/-- A packet that arrives is any one that the other endpoint has sent, so that
packets are lost, duplicated, delayed and reordered.  Nothing is closed. -/
def tpPair : Lib.System (Endpoint → TpCtrl) (Endpoint × TpOutcome × TpCall) where
  start pair := ∀ endpoint, pair endpoint = tpCreate
  step pair label after :=
    label.2.2.Enabled label.2.1 (pair label.1) ∧
    (∀ uiTpId, label.2.2 ≠ .close uiTpId) ∧
    (∀ mbuf, label.2.2 = .pktInput mbuf → mbuf ∈ (pair label.1.other).sent) ∧
    after = Function.update pair label.1 (label.2.2.run label.2.1 (pair label.1))

def tpPairNext (pair : Endpoint → TpCtrl) (label : Endpoint × TpOutcome × TpCall) :
    Endpoint → TpCtrl :=
  Function.update pair label.1 (label.2.2.run label.2.1 (pair label.1))

/-- The steps of the pair, as a condition that can be evaluated. -/
def TpPairAdmits (pair : Endpoint → TpCtrl) (label : Endpoint × TpOutcome × TpCall) : Prop :=
  label.2.2.Enabled label.2.1 (pair label.1) ∧ label.2.2.isClose = false ∧
    ∀ mbuf ∈ label.2.2.packet, mbuf ∈ (pair label.1.other).sent

instance (pair : Endpoint → TpCtrl) (label : Endpoint × TpOutcome × TpCall) :
    Decidable (TpPairAdmits pair label) :=
  inferInstanceAs (Decidable (_ ∧ _ ∧ _))

theorem TpPairAdmits.step {pair : Endpoint → TpCtrl} {label : Endpoint × TpOutcome × TpCall}
    (admits : TpPairAdmits pair label) : tpPair.step pair label (tpPairNext pair label) := by
  obtain ⟨enabled, unclosed, authentic⟩ := admits
  refine ⟨enabled, fun uiTpId isClose => ?_, fun mbuf arrives => ?_, rfl⟩
  · rw [isClose] at unclosed
    cases unclosed
  · rw [arrives] at authentic
    exact authentic mbuf rfl

theorem tpPair_reachable {labels : List (Endpoint × TpOutcome × TpCall)}
    (admitted : Lib.System.Admitted TpPairAdmits tpPairNext (fun _ => tpCreate) labels) :
    tpPair.Reachable (labels.foldl tpPairNext fun _ => tpCreate) :=
  .foldl (fun _ _ admits => ⟨trivial, admits.step⟩) (.start fun _ => rfl) admitted

def tpOutcomeOk (socketAlloc : Option UINT) : TpOutcome :=
  ⟨socketAlloc, true, true, true⟩

def tpSynPkt : Mbuf :=
  ⟨⟨5, 0, 0x80000000, 0, 0, tpPktFlagSyn⟩, [], 0⟩

def tpSynAckPkt : Mbuf :=
  ⟨⟨5, 0x80000000, 0x80000001, 0, 1, tpPktFlagSyn ||| tpPktFlagAck⟩, [], 0⟩

def tpAckPkt : Mbuf :=
  ⟨⟨5, 0x80000001, 0x80000000, 1, 1, tpPktFlagAck⟩, [], 0⟩

def tpDataPkt (data : List UCHAR) : Mbuf :=
  ⟨⟨5, 0x80000000, 0x80000001, 1, 1, tpPktFlagData⟩, data, 0⟩

/-- A connect to the protocol 5, up to the answer. -/
def tpPairConnect : List (Endpoint × TpOutcome × TpCall) :=
  [(.acceptor, tpOutcomeOk (some 0x80000000), .socket .protocol),
    (.acceptor, tpOutcomeOk none, .bind 0x80000000 5),
    (.acceptor, tpOutcomeOk none, .listen 0x80000000),
    (.connector, tpOutcomeOk (some 0x80000000), .socket .conn),
    (.connector, tpOutcomeOk none, .connect 0x80000000 5),
    (.acceptor, tpOutcomeOk (some 0x80000001), .pktInput tpSynPkt),
    (.connector, tpOutcomeOk none, .pktInput tpSynAckPkt)]

end MyCode.Tp

/-!
## The effects of the functions on a socket

Flags, received payloads and timers do not influence the exchange of packets, so
sockets are compared by the other fields.  A function changes the socket in hand
and hands packets over, and leaves the other sockets alone.
-/

namespace MyCode.Tp

open KeepAlive

variable {work after last : TpWork} {socket : TpSocket} {sent : List Mbuf} {pkt : TpPktHead}
  {outcome : TpOutcome}

/-- A socket without its flags, received payloads and timers. -/
def TpSocket.core (socket : TpSocket) : TpSocket :=
  { socket with
    uiFlag := 0, stRecvMbufQue := [], stKeepAlive := ⟨0, 0, 0, false, 0, none⟩
    usResendCount := 0, hResendTImer := .null }

/-- Every protocol was there before with the same listener. -/
def ListenersKept (ctrl after : TpCtrl) : Prop :=
  ∀ uiProtocolId protocol, after.hProtocolNap uiProtocolId = some protocol →
    ∃ old, ctrl.hProtocolNap uiProtocolId = some old ∧ old.uiLocalTpId = protocol.uiLocalTpId

/-- The socket in hand becomes like `socket`, and the packets are handed over. -/
structure Effect (work after : TpWork) (socket : TpSocket) (sent : List Mbuf) : Prop where
  core : after.socket.core = socket.core
  sockets : after.ctrl.hSocketNap = work.ctrl.hSocketNap
  listeners : ListenersKept work.ctrl after.ctrl
  sent : after.ctrl.sent = work.ctrl.sent ++ sent

theorem ListenersKept.refl (ctrl : TpCtrl) : ListenersKept ctrl ctrl :=
  fun _ protocol found => ⟨protocol, found, rfl⟩

theorem ListenersKept.setProtocol {ctrl : TpCtrl} {uiProtocolId : UINT} {old protocol : TpProtocol}
    (found : ctrl.hProtocolNap uiProtocolId = some old)
    (same : old.uiLocalTpId = protocol.uiLocalTpId) :
    ListenersKept ctrl (ctrl.setProtocol uiProtocolId (some protocol)) := by
  intro other listener stored
  simp only [TpCtrl.setProtocol, Function.update_apply] at stored
  split at stored
  · next equal =>
    cases stored
    exact ⟨old, equal ▸ found, same⟩
  · exact ⟨listener, stored, rfl⟩

theorem Effect.of_socket (core : after.socket.core = socket.core) (ctrl : after.ctrl = work.ctrl) :
    Effect work after socket [] := by
  refine ⟨core, by rw [ctrl], ?_, ?_⟩
  · rw [ctrl]
    exact .refl _
  · rw [ctrl, List.append_nil]

theorem Effect.refl (work : TpWork) : Effect work work work.socket [] :=
  .of_socket rfl rfl

theorem Effect.send (effect : Effect work after socket sent) (mbuf : Mbuf) :
    Effect work (after.send mbuf) socket (sent ++ [mbuf]) := by
  obtain ⟨core, sockets, listeners, sentBefore⟩ := effect
  refine ⟨core, sockets, listeners, ?_⟩
  simp [TpWork.send, tpPktSendPkt, sentBefore]

theorem Effect.trans {first second : TpSocket} {before : List Mbuf}
    (effect : Effect work after first before) (next : Effect after last second sent) :
    Effect work last second (before ++ sent) := by
  refine ⟨next.core, next.sockets.trans effect.sockets, ?_, ?_⟩
  · intro uiProtocolId protocol found
    obtain ⟨between, foundBetween, sameBetween⟩ := next.listeners uiProtocolId protocol found
    obtain ⟨old, foundOld, sameOld⟩ := effect.listeners uiProtocolId between foundBetween
    exact ⟨old, foundOld, sameOld.trans sameBetween⟩
  · rw [next.sent, effect.sent, List.append_assoc]

theorem Effect.congr {other : TpSocket} (effect : Effect work after socket sent)
    (same : socket.core = other.core) : Effect work after other sent :=
  { effect with core := effect.core.trans same }

section Core

variable {other : TpSocket} (same : socket.core = other.core)

include same

theorem core_status : socket.uiStatus = other.uiStatus := by
  change socket.core.uiStatus = other.core.uiStatus
  rw [same]

theorem core_closed :
    ({ socket with uiStatus := .closed } : TpSocket).core =
      ({ other with uiStatus := .closed } : TpSocket).core :=
  congrArg (fun socket : TpSocket => { socket with uiStatus := .closed }) same

theorem core_localTpId : socket.uiLocalTpId = other.uiLocalTpId := by
  change socket.core.uiLocalTpId = other.core.uiLocalTpId
  rw [same]

theorem core_pushed : socket.pushed = other.pushed := by
  change socket.core.pushed = other.core.pushed
  rw [same]

theorem core_que : socket.stSendMbufQue = other.stSendMbufQue := by
  change socket.core.stSendMbufQue = other.core.stSendMbufQue
  rw [same]

end Core

theorem tpProtocolDelAccepting_core (protocol : TpProtocol) (socket : TpSocket) :
    (tpProtocolDelAccepting protocol socket).2.core = socket.core ∧
      (tpProtocolDelAccepting protocol socket).1.uiLocalTpId = protocol.uiLocalTpId := by
  unfold tpProtocolDelAccepting
  split <;> exact ⟨rfl, rfl⟩

theorem tpSocketAbort_effect (work : TpWork) :
    Effect work (tpSocketAbort work) { work.socket with uiStatus := .closed } [] := by
  unfold tpSocketAbort
  split
  · split
    · exact .of_socket rfl rfl
    next protocol found =>
    obtain ⟨core, listener⟩ := tpProtocolDelAccepting_core protocol work.socket
    exact ⟨core_closed core, rfl, .setProtocol found listener.symm, (List.append_nil _).symm⟩
  · exact .of_socket rfl rfl

def MayClose (socket after : TpSocket) : Prop :=
  after = socket ∨ after = { socket with uiStatus := .closed }

theorem tpPktStartResendTimer_effect (outcome : TpOutcome) (work : TpWork) :
    ∃ socket, MayClose work.socket socket ∧
      Effect work (tpPktStartResendTimer outcome work) socket [] := by
  unfold tpPktStartResendTimer
  split
  · split
    · exact ⟨_, .inl rfl, .of_socket rfl rfl⟩
    · exact ⟨_, .inr rfl, tpSocketAbort_effect work⟩
  · exact ⟨_, .inl rfl, .of_socket rfl rfl⟩

theorem tpPktStopResendTimer_effect (work : TpWork) :
    Effect work (tpPktStopResendTimer work) work.socket [] := by
  unfold tpPktStopResendTimer
  split <;> exact .of_socket rfl rfl

theorem tpPktStartKeepAlive_effect (outcome : TpOutcome) (work : TpWork) :
    Effect work (tpPktStartKeepAlive outcome work).1 work.socket [] := by
  unfold tpPktStartKeepAlive
  split <;> exact .of_socket rfl rfl

theorem tpPtkSendQueMbuf_effect (work : TpWork) :
    ∃ sent, Effect work (tpPtkSendQueMbuf work) work.socket sent ∧
      ∀ mbuf ∈ sent, mbuf ∈ work.socket.stSendMbufQue := by
  unfold tpPtkSendQueMbuf
  split
  · exact ⟨[], .refl work, nofun⟩
  next mbuf first =>
  refine ⟨[mbuf], (Effect.refl work).send mbuf, fun other inside => ?_⟩
  rw [List.mem_singleton.mp inside]
  exact List.mem_of_head? first

theorem tpPktRecordAndSendPkt_effect (outcome : TpOutcome) (work : TpWork) (mbuf : Mbuf) :
    ∃ socket sent,
      MayClose { work.socket with
        stSendMbufQue := work.socket.stSendMbufQue ++ [mbuf], iSn := work.socket.iSn + 1 } socket ∧
      Effect work (tpPktRecordAndSendPkt outcome work mbuf) socket sent ∧
      ∀ other ∈ sent, other = mbuf := by
  unfold tpPktRecordAndSendPkt
  simp only
  split
  · obtain ⟨socket, closes, effect⟩ := tpPktStartResendTimer_effect outcome (TpWork.send { work with
      socket.stSendMbufQue := work.socket.stSendMbufQue ++ [mbuf]
      socket.iSn := work.socket.iSn + 1 } mbuf)
    refine ⟨socket, [mbuf], closes, ?_, fun other inside => List.mem_singleton.mp inside⟩
    obtain ⟨core, sockets, listeners, sent⟩ := effect
    exact ⟨core, sockets, listeners, sent.trans (List.append_nil _)⟩
  · exact ⟨_, [], .inl rfl, .of_socket rfl rfl, nofun⟩

theorem tpPktAckInput_effect (pkt : TpPktHead) (work : TpWork) :
    ∃ sent, Effect work (tpPktAckInput pkt work)
        { work.socket with
          stSendMbufQue := work.socket.stSendMbufQue.dropWhile (tpPktIsAcked pkt.iAckSn) } sent ∧
      ∀ mbuf ∈ sent, mbuf ∈ work.socket.stSendMbufQue.dropWhile (tpPktIsAcked pkt.iAckSn) := by
  unfold tpPktAckInput
  simp only
  split
  · refine ⟨[], ?_, nofun⟩
    obtain ⟨core, sockets, listeners, sent⟩ := tpPktStopResendTimer_effect { work with
      socket.stSendMbufQue := work.socket.stSendMbufQue.dropWhile (tpPktIsAcked pkt.iAckSn)
      socket.usResendCount := _ }
    exact ⟨core, sockets, listeners, sent⟩
  · obtain ⟨sent, ⟨core, sockets, listeners, handed⟩, inside⟩ := tpPtkSendQueMbuf_effect { work with
      socket.stSendMbufQue := work.socket.stSendMbufQue.dropWhile (tpPktIsAcked pkt.iAckSn)
      socket.usResendCount := _ }
    exact ⟨sent, ⟨core, sockets, listeners, handed⟩, inside⟩

theorem tpProtocolFindAccepted_eq_some {ctrl : TpCtrl} {slots : List (Option UINT)} {i : Nat}
    (isAccepted : tpProtocolFindAccepted ctrl slots = some (i, socket)) :
    ∃ uiTpId, slots[i]? = some (some uiTpId) ∧ ctrl.hSocketNap uiTpId = some socket ∧
      socket.uiStatus = .establish := by
  unfold tpProtocolFindAccepted at isAccepted
  split at isAccepted
  · cases isAccepted
  next j first =>
  obtain ⟨_, isStored, same⟩ := Option.map_eq_some_iff.mp isAccepted
  cases same
  obtain ⟨uiTpId, isSlot, found⟩ := Option.bind_eq_some_iff.mp isStored
  obtain ⟨inside, established, -⟩ := List.findIdx?_eq_some_iff_getElem.mp first
  rw [List.getElem?_eq_getElem inside, Option.join_some] at isSlot
  rw [isSlot, Option.bind_some, found, Option.any_some, beq_iff_eq] at established
  refine ⟨uiTpId, ?_, found, established⟩
  rw [List.getElem?_eq_getElem inside, isSlot]

theorem tpPktFindSocket_eq_some {ctrl : TpCtrl} (found : tpPktFindSocket ctrl pkt = some socket) :
    ctrl.hSocketNap pkt.uiDstTpId = some socket ∧
      (socket.uiPeerTpId ≠ 0 → socket.uiPeerTpId = pkt.uiSrcTpId) := by
  unfold tpPktFindSocket at found
  split at found
  · cases found
  next stored isStored =>
  split at found
  · cases found
  next matches' =>
  cases found
  exact ⟨isStored, fun peer => Classical.byContradiction fun other => matches' ⟨peer, other⟩⟩

end MyCode.Tp
