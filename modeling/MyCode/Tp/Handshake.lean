import MyCode.Tp.Moves

/-!
# The third packet of the handshake

The acceptor compares the numbers of an acknowledgement with those of its
answer.  The number of the connector moves on with every payload that is queued,
so the acknowledgement is only accepted while nothing is.
-/

namespace MyCode.Tp

open Lib KeepAlive List BitVec

variable {near far : TpCtrl} {uiTpId : UINT} {socket after : TpSocket} {arrived : Option Mbuf}
  {pair : Endpoint → TpCtrl} {outcome : TpOutcome} {work : TpWork} {pkt : TpPktHead}

/-- An established socket of which the peer has not got the third packet. -/
structure Waiting (socket : TpSocket) : Prop where
  expects : socket.iAckSn = 1
  queued : socket.stSendMbufQue.length = socket.accepted.length
  bounded : socket.stSendMbufQue.length ≤ tpSendMbufCount
  first : ∀ mbuf ∈ socket.stSendMbufQue.head?, mbuf.stHead.iSn = 1

/-- The peer of an established socket is still in `SYN_RCVD`. -/
def PeerWaits (far : TpCtrl) (socket : TpSocket) : Prop :=
  socket.uiStatus = .establish ∧ ∃ peer, far.hSocketNap socket.uiPeerTpId = some peer ∧
    peer.uiStatus = .synRcvd

theorem ArrivesFrom.not_settled {mbuf : Mbuf} {origin : TpSocket}
    (arrives : ArrivesFrom near far arrived uiTpId mbuf origin) (waits : PeerWaits far socket)
    (peer : socket.uiPeerTpId = mbuf.stHead.uiSrcTpId) : ¬ origin.uiStatus.Settled := by
  obtain ⟨-, _, isKnown, rcvd⟩ := waits
  rw [peer, arrives.found] at isKnown
  cases isKnown
  exact fun settled => settled.2.2 rcvd

theorem Waiting.send (waiting : Waiting socket) (socketOk : SocketOk far uiTpId socket)
    (established : socket.uiStatus = .establish)
    (bounded : socket.stSendMbufQue.length < tpSendMbufCount) (data : List UCHAR) :
    Waiting { socket with
      accepted := socket.accepted ++ [data]
      iSn := socket.iSn + 1
      stSendMbufQue := socket.stSendMbufQue ++
        [⟨tpPktFillPktHeader socket tpPktFlagData, data, socket.accepted.length⟩] } := by
  obtain ⟨expects, queued, -, first⟩ := waiting
  refine ⟨expects, by simp [queued], ?_, ?_⟩
  · rw [length_append]
    exact Nat.succ_le_of_lt bounded
  intro mbuf isFirst
  cases que : socket.stSendMbufQue with
  | nil =>
    have unsent : socket.accepted.length = 0 := by rw [← queued, que]; rfl
    rw [que] at isFirst
    cases isFirst
    simp only [tpPktFillPktHeader, (socketOk.establish established).1, unsent]
    rfl
  | cons =>
    rw [que] at isFirst
    exact first mbuf (by rw [que]; exact isFirst)

theorem Waiting.again (waiting : Waiting socket) {iAckSn : UINT} (acks : iAckSn = 1) :
    socket.stSendMbufQue.dropWhile (tpPktIsAcked iAckSn) = socket.stSendMbufQue := by
  cases que : socket.stSendMbufQue with
  | nil => rfl
  | cons head =>
    have iSn := waiting.first head (by rw [que]; rfl)
    simp [tpPktIsAcked, iSn, acks]

theorem Waiting.change (change : Change near far arrived uiTpId socket after)
    (socketOk : SocketOk far uiTpId socket) (waiting : PeerWaits far socket → Waiting socket)
    (waits : PeerWaits far after) : Waiting after := by
  cases change with
  | stay => exact waiting waits
  | bind => exact { waiting waits with }
  | connect => exact absurd waits.1 nofun
  | send data established bounded => exact (waiting waits).send socketOk established bounded data
  | acked _ _ arrives flag _ peer =>
    have known := (socketOk.establish waits.1).2.1
    exact absurd (arrives.fromSocket.of_answer (.inl flag)).2.2
      (arrives.not_settled waits (peer known))
  | connected mbuf _ arrives flag sending =>
    obtain ⟨-, -, ⟨_, que, iSn⟩, accepted, -⟩ := socketOk.synSend sending
    obtain ⟨-, -, zero, acks, -⟩ := arrives.fromSocket.of_synAck flag
    have dropped : socket.stSendMbufQue.dropWhile (tpPktIsAcked mbuf.stHead.iAckSn) = [] := by
      rw [que, dropWhile_cons_of_pos]
      · rfl
      · rw [tpPktIsAcked, acks, iSn]
        rfl
    refine ⟨by rw [zero]; rfl, ?_, ?_, ?_⟩
    · simp [dropped, accepted]
    · simp [dropped]
    · simp only [dropped]
      exact nofun
  | refused => exact absurd waits.1 nofun
  | confirmed _ _ arrives flag _ peer =>
    obtain ⟨-, _, isKnown, isRcvd⟩ := waits
    simp only [peer] at isKnown
    cases arrives.found.symm.trans isKnown
    exact absurd isRcvd (arrives.fromSocket.of_answer (.inl flag)).2.2.2.2
  | again _ _ arrives flag =>
    obtain ⟨-, -, zero, acks, -⟩ := arrives.fromSocket.of_synAck flag
    have before := waiting waits
    have kept := before.again acks
    refine ⟨by rw [zero]; rfl, ?_, ?_, ?_⟩
    · simp only [kept]
      exact before.queued
    · simp only [kept]
      exact before.bounded
    · simp only [kept]
      exact before.first
  | push _ _ arrives flag established peer =>
    exact absurd (arrives.fromSocket.of_data flag).2.2.2.2
      (arrives.not_settled ⟨established, waits.2⟩ peer)

theorem Waiting.of_core (same : socket.core = after.core) (waiting : Waiting after) :
    Waiting socket := by
  have core : Waiting after.core := { waiting with }
  rw [← same] at core
  exact { core with }

theorem PeerWaits.of_core (same : socket.core = after.core) (waits : PeerWaits far socket) :
    PeerWaits far after := by
  have core : PeerWaits far socket.core := waits
  rw [same] at core
  exact core

def PairWaiting (pair : Endpoint → TpCtrl) : Prop :=
  ∀ endpoint uiTpId socket, (pair endpoint).hSocketNap uiTpId = some socket →
    PeerWaits (pair endpoint.other) socket → Waiting socket

theorem PairWaiting.step {after : Endpoint → TpCtrl} {label : Endpoint × TpOutcome × TpCall}
    (pairWaiting : PairWaiting pair) (pairOk : PairOk pair)
    (stepped : tpPair.step pair label after) : PairWaiting after := by
  obtain ⟨endpoint, _, _⟩ := label
  obtain ⟨moves, stays⟩ := pairOk.moves stepped
  intro other uiTpId socket found waits
  rcases Endpoint.eq_or_eq_other endpoint other with rfl | rfl
  · rw [stays] at waits
    rcases moves.sockets uiTpId socket found with
      ⟨old, _, _, isOld, change, closes, same⟩ | opened
    · refine .of_core same ?_
      have lastWaits := waits.of_core same
      rcases closes with rfl | rfl
      · exact .change change ((pairOk other).sockets uiTpId old isOld)
          (pairWaiting other uiTpId old isOld) lastWaits
      · exact absurd lastWaits.1 nofun
    · exact absurd waits.1 opened.unsettled
  rw [stays] at found
  rw [Endpoint.other_other] at waits
  obtain ⟨established, _, isPeer, rcvd⟩ := waits
  -- The peer is there since the handshake, and was in `SYN_RCVD` all the time.
  obtain ⟨-, -, known, isKnown, -⟩ :=
    ((pairOk endpoint.other).sockets uiTpId socket found).establish established
  rw [Endpoint.other_other] at isKnown
  obtain ⟨_, isLater, evolves⟩ := moves.grows (pairOk endpoint) _ known isKnown
  cases isPeer.symm.trans isLater
  refine pairWaiting endpoint.other uiTpId socket found ⟨established, known, ?_, ?_⟩
  · rw [Endpoint.other_other]
    exact isKnown
  · exact evolves.synRcvd rcvd

theorem tpPair_waiting (reached : tpPair.Reachable pair) : PairOk pair ∧ PairWaiting pair := by
  refine @System.Reachable.invariant _ _ _ (fun pair => PairOk pair ∧ PairWaiting pair) ?_ ?_ pair
    reached
  · intro pair started
    refine ⟨pairOk_start started, fun endpoint uiTpId socket found => ?_⟩
    rw [started endpoint] at found
    cases found
  · intro pair label after ⟨pairOk, pairWaiting⟩ stepped
    exact ⟨pairOk.step stepped, pairWaiting.step pairOk stepped⟩

theorem tpPktEstablish_status :
    (tpPktEstablish outcome pkt work).1.socket.uiStatus = .establish ↔
      work.socket.stKeepAlive.usIdle = 0 ∨ outcome.keepAliveStart = true := by
  have start : (tpPktStartKeepAlive outcome { work with socket.uiStatus := .establish }).2 = .ok ↔
      work.socket.stKeepAlive.usIdle = 0 ∨ outcome.keepAliveStart = true := by
    simp only [tpPktStartKeepAlive, kaStart]
    split
    · next other => exact absurd rfl other
    split
    · next idle => simp [idle]
    next idle =>
    split
    · next added => simp [added]
    next failed =>
    refine ⟨by simp, fun started => ?_⟩
    rcases started with zero | added
    · exact absurd zero idle
    · exact absurd added failed
  rw [← start]
  simp only [tpPktEstablish]
  split
  · next failed =>
    exact ⟨by rintro ⟨⟩, fun started => absurd started failed⟩
  next started =>
  obtain ⟨_, effect, -⟩ := tpPktAckInput_effect pkt
    (tpPktStartKeepAlive outcome { work with socket.uiStatus := .establish }).1
  have begun := tpPktStartKeepAlive_effect outcome { work with socket.uiStatus := .establish }
  refine ⟨fun _ => not_not.mp started, fun _ => ?_⟩
  rw [core_status effect.core]
  exact core_status begun.core

theorem tpPktAck2Input_status (rcvd : work.socket.uiStatus = .synRcvd) :
    (tpPktAck2Input outcome pkt work).1.socket.uiStatus = .establish ↔
      (work.socket.iSn = pkt.iAckSn ∧ work.socket.iAckSn = pkt.iSn) ∧
        (work.socket.stKeepAlive.usIdle = 0 ∨ outcome.keepAliveStart = true) := by
  unfold tpPktAck2Input
  split
  · next differs =>
    rw [rcvd]
    refine ⟨nofun, fun ⟨same, _⟩ => ?_⟩
    rcases differs with differs | differs
    · exact absurd same.1 differs
    · exact absurd same.2 differs
  · next same =>
    obtain ⟨iSn, iAckSn⟩ := not_or.mp same
    rw [tpPktEstablish_status]
    exact ⟨fun started => ⟨⟨not_not.mp iSn, not_not.mp iAckSn⟩, started⟩, fun both => both.2⟩

theorem tpPktAck2Input_frame (outcome : TpOutcome) (pkt : TpPktHead) (work : TpWork) :
    (tpPktAck2Input outcome pkt work).1.ctrl.hSocketNap = work.ctrl.hSocketNap ∧
      (tpPktAck2Input outcome pkt work).1.socket.uiLocalTpId = work.socket.uiLocalTpId := by
  unfold tpPktAck2Input
  split
  · exact ⟨rfl, rfl⟩
  rcases tpPktEstablish_effect outcome pkt work with effect | ⟨_, effect, -⟩
  · exact ⟨effect.sockets, (core_localTpId effect.core).trans rfl⟩
  · exact ⟨effect.sockets, (core_localTpId effect.core).trans rfl⟩

theorem tpPktInput_thirdAck {peer : TpSocket} (socketOk : SocketOk far uiTpId socket)
    (peerOk : SocketOk near socket.uiPeerTpId peer) (found : near.hSocketNap uiTpId = some socket)
    (isPeer : far.hSocketNap socket.uiPeerTpId = some peer) (rcvd : peer.uiStatus = .synRcvd)
    (same : peer.uiPeerTpId = uiTpId) :
    ∃ work, (tpPktInput outcome far (tpPktBuildProtocolPkt socket tpPktFlagAck)).1.hSocketNap
        socket.uiPeerTpId = some work.socket ∧
      work = (tpPktAck2Input outcome (tpPktFillPktHeader socket tpPktFlagAck)
        ⟨far, tpPktResetKeepAlive peer⟩).1 := by
  obtain ⟨-, _, isOrigin, -, -, proper, bounded⟩ := peerOk.listen (peerOk.synRcvd rcvd).2.2.2.2
  rw [same, found] at isOrigin
  cases isOrigin
  have isFound : tpPktFindSocket far (tpPktFillPktHeader socket tpPktFlagAck) = some peer := by
    rw [tpPktFindSocket, tpSocketFindSocket, tpPktFillPktHeader]
    simp only [isPeer]
    rw [if_neg]
    exact fun both => both.2 (same.trans socketOk.local_eq.symm)
  have input : (tpPktInput outcome far (tpPktBuildProtocolPkt socket tpPktFlagAck)).1 =
      (tpPktAck2Input outcome (tpPktFillPktHeader socket tpPktFlagAck)
        ⟨far, tpPktResetKeepAlive peer⟩).1.store := by
    have noData : (!hasFlag tpPktFlagAck tpPktFlagData) = true := rfl
    have isAck : hasFlag tpPktFlagAck tpPktFlagAck = true := rfl
    have unsent : (tpPktResetKeepAlive peer).uiStatus ≠ .synSend := by
      change peer.uiStatus ≠ .synSend
      rw [rcvd]
      rintro ⟨⟩
    rw [tpPktInput, tpPktBuildProtocolPkt]
    simp only [tpPktFillPktHeader, noData, if_true]
    rw [tpPktProtocolPktIn, if_neg (not_or.mpr ⟨proper, bounded⟩), if_neg peerOk.nonzero]
    simp only [tpPktFillPktHeader] at isFound
    simp only [isFound]
    rw [if_neg unsent, tpPktFlagsIn_ack rfl, tpPktAckFlagIn_synRcvd isAck (by exact rcvd)]
  refine ⟨_, ?_, rfl⟩
  obtain ⟨_, localId⟩ := tpPktAck2Input_frame outcome
    (tpPktFillPktHeader socket tpPktFlagAck) ⟨far, tpPktResetKeepAlive peer⟩
  rw [input, TpWork.store, TpCtrl.setSocket]
  simp only [localId]
  rw [← peerOk.local_eq]
  exact Function.update_self ..

theorem Waiting.iSn_iff (waiting : Waiting socket) (socketOk : SocketOk far uiTpId socket)
    (established : socket.uiStatus = .establish) : socket.iSn = 1 ↔ socket.stSendMbufQue = [] := by
  have bounded := waiting.bounded
  rw [(socketOk.establish established).1, ← waiting.queued, ← length_eq_zero_iff]
  generalize socket.stSendMbufQue.length = count at bounded
  constructor
  · intro one
    have value := congrArg BitVec.toNat one
    simp only [toNat_add, toNat_ofNat, tpSendMbufCount] at value bounded
    omega
  · rintro rfl
    rfl

/-- The acknowledgement of an established connector ends the handshake of its
peer if and only if no payload is queued and the keep-alive starts. -/
theorem tpPair_thirdAck_iff (reached : tpPair.Reachable pair) (endpoint : Endpoint)
    (found : (pair endpoint).hSocketNap uiTpId = some socket)
    (established : socket.uiStatus = .establish) {peer : TpSocket}
    (isPeer : (pair endpoint.other).hSocketNap socket.uiPeerTpId = some peer)
    (rcvd : peer.uiStatus = .synRcvd) (outcome : TpOutcome) :
    (∃ confirmed, (tpPktInput outcome (pair endpoint.other)
        (tpPktBuildProtocolPkt socket tpPktFlagAck)).1.hSocketNap socket.uiPeerTpId =
          some confirmed ∧ confirmed.uiStatus = .establish) ↔
      socket.stSendMbufQue = [] ∧
        (peer.stKeepAlive.usIdle = 0 ∨ outcome.keepAliveStart = true) := by
  obtain ⟨pairOk, pairWaiting⟩ := tpPair_waiting reached
  have socketOk := (pairOk endpoint).sockets uiTpId socket found
  have peerOk := (pairOk endpoint.other).sockets _ peer isPeer
  rw [Endpoint.other_other] at peerOk
  have waiting := pairWaiting endpoint uiTpId socket found ⟨established, peer, isPeer, rcvd⟩
  obtain ⟨-, -, _, isKnown, same⟩ := socketOk.establish established
  cases isPeer.symm.trans isKnown
  obtain ⟨iSn, iAckSn, -⟩ := peerOk.synRcvd rcvd
  obtain ⟨work, stored, isWork⟩ := @tpPktInput_thirdAck _ _ uiTpId socket outcome peer socketOk
    peerOk found isPeer rcvd same
  have status := @tpPktAck2Input_status outcome
    ⟨pair endpoint.other, tpPktResetKeepAlive peer⟩ (tpPktFillPktHeader socket tpPktFlagAck) rcvd
  rw [← isWork] at status
  rw [stored, ← waiting.iSn_iff socketOk established]
  have confirms : (∃ confirmed, some work.socket = some confirmed ∧
      confirmed.uiStatus = .establish) ↔ work.socket.uiStatus = .establish := by
    simp
  rw [confirms, status]
  apply and_congr
  · simp only [tpPktFillPktHeader, tpPktResetKeepAlive, iSn, iAckSn, waiting.expects, true_and]
    exact eq_comm
  · simp only [tpPktResetKeepAlive, kaReset_usIdle]

/-- The connector after the answer, before its acknowledgement arrives. -/
theorem tpPair_thirdAck_iff_connect :
    ∃ pair socket, tpPair.Reachable pair ∧
      (pair .connector).hSocketNap 0x80000000 = some socket ∧
      ∃ confirmed, (tpPktInput (tpOutcomeOk none) (pair .acceptor)
        (tpPktBuildProtocolPkt socket tpPktFlagAck)).1.hSocketNap socket.uiPeerTpId =
          some confirmed ∧ confirmed.uiStatus = .establish := by
  have reached : tpPair.Reachable (tpPairConnect.foldl tpPairNext fun _ => tpCreate) :=
    tpPair_reachable (by decide +kernel)
  obtain ⟨socket, found, established, peerId, que⟩ : ∃ socket ∈ ((tpPairConnect.foldl tpPairNext
      fun _ => tpCreate) .connector).hSocketNap 0x80000000,
      socket.uiStatus = .establish ∧ socket.uiPeerTpId = 0x80000001 ∧
        socket.stSendMbufQue = [] := by
    decide +kernel
  obtain ⟨peer, isPeer, rcvd⟩ : ∃ peer ∈ ((tpPairConnect.foldl tpPairNext
      fun _ => tpCreate) .acceptor).hSocketNap 0x80000001, peer.uiStatus = .synRcvd := by
    decide +kernel
  exact ⟨_, socket, reached, found, (tpPair_thirdAck_iff reached .connector found established
    (peerId ▸ isPeer) rcvd (tpOutcomeOk none)).mpr ⟨que, .inr rfl⟩⟩

/-- The acknowledgement is lost, and the connector sends. -/
def tpPairLost : List (Endpoint × TpOutcome × TpCall) :=
  tpPairConnect ++ [(.connector, tpOutcomeOk none, .sendMbuf 0x80000000 [7])]

theorem tpPair_thirdAck_refused :
    ¬ ∀ pair, tpPair.Reachable pair → ∀ endpoint uiTpId socket peer,
      (pair endpoint).hSocketNap uiTpId = some socket → socket.uiStatus = .establish →
      (pair endpoint.other).hSocketNap socket.uiPeerTpId = some peer →
      peer.uiStatus = .synRcvd →
        ∃ confirmed, (tpPktInput (tpOutcomeOk none) (pair endpoint.other)
          (tpPktBuildProtocolPkt socket tpPktFlagAck)).1.hSocketNap socket.uiPeerTpId =
            some confirmed ∧ confirmed.uiStatus = .establish := by
  intro holds
  have reached : tpPair.Reachable (tpPairLost.foldl tpPairNext fun _ => tpCreate) :=
    tpPair_reachable (by decide +kernel)
  obtain ⟨socket, found, established, peerId, refused⟩ : ∃ socket ∈ ((tpPairLost.foldl tpPairNext
      fun _ => tpCreate) .connector).hSocketNap 0x80000000,
      socket.uiStatus = .establish ∧ socket.uiPeerTpId = 0x80000001 ∧
        ∀ confirmed ∈ (tpPktInput (tpOutcomeOk none) ((tpPairLost.foldl tpPairNext
          fun _ => tpCreate) .acceptor) (tpPktBuildProtocolPkt socket tpPktFlagAck)).1.hSocketNap
            socket.uiPeerTpId, confirmed.uiStatus ≠ .establish := by
    decide +kernel
  obtain ⟨peer, isPeer, rcvd⟩ : ∃ peer ∈ ((tpPairLost.foldl tpPairNext
      fun _ => tpCreate) .acceptor).hSocketNap 0x80000001, peer.uiStatus = .synRcvd := by
    decide +kernel
  obtain ⟨confirmed, isConfirmed, confirms⟩ := holds _ reached .connector 0x80000000 socket peer
    found established (peerId ▸ isPeer) rcvd
  exact refused confirmed isConfirmed confirms

end MyCode.Tp
