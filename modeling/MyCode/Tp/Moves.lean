import MyCode.Tp.Exchange

/-!
# The calls as changes

Every call of an endpoint is one of the changes of the exchange, for the packets
that the invariant admits.
-/

namespace MyCode.Tp

open KeepAlive Function List

variable {near far : TpCtrl} {uiTpId : UINT} {socket : TpSocket} {mbuf : Mbuf}
  {arrived : Option Mbuf} {outcome : TpOutcome} {work : TpWork} {pkt : TpPktHead}

variable (nearOk : EndOk near far) (farOk : EndOk far near)

include nearOk farOk in
theorem setSocket_moves (found : near.hSocketNap uiTpId = some socket) {after : TpSocket}
    (same : after.core = socket.core) : Moves near far arrived (near.setSocket after) := by
  have effect := (Effect.refl ⟨near, after⟩).congr same
  exact .of_effect nearOk farOk found rfl effect .stay (.inl rfl) nofun

include nearOk in
theorem tpWithSocket_moves {call : TpSocket → TpCtrl × BsStatus}
    (moves : ∀ socket, near.hSocketNap uiTpId = some socket →
      Moves near far arrived (call socket).1) :
    Moves near far arrived (tpWithSocket near uiTpId call).1 := by
  unfold tpWithSocket
  split
  · exact .refl nearOk
  split
  · exact .refl nearOk
  · next socket found => exact moves socket found

include nearOk in
theorem setProtocol_moves {uiProtocolId : UINT} {protocol : TpProtocol}
    (listener : protocol.uiLocalTpId ≠ 0) :
    Moves near far arrived (near.setProtocol uiProtocolId (some protocol)) := by
  refine { (Moves.refl nearOk : Moves near far arrived near) with listeners := ?_, sent := ?_ }
  · exact fun mbuf inside => .inl inside
  intro other listens found
  simp only [TpCtrl.setProtocol, update_apply] at found
  split at found
  · cases found
    exact listener
  · exact nearOk.listeners other listens found

theorem newSocket_ok (ctrl far : TpCtrl) (nonzero : uiTpId ≠ 0) (eType : TpType) :
    SocketOk far uiTpId (tpSocketNewSocket ctrl uiTpId eType) where
  local_eq := rfl
  nonzero := nonzero
  init := fun _ => ⟨rfl, rfl, rfl, rfl, rfl, rfl⟩
  synSend := nofun
  synRcvd := nofun
  establish := nofun
  peer := fun nonzero => absurd rfl nonzero
  listen := fun listens => absurd rfl listens
  que := nofun

section

include nearOk

theorem Moves.of_opened {work : TpWork} {sent : List Mbuf}
    (sockets : work.ctrl.hSocketNap = near.hSocketNap)
    (listeners : ListenersKept near work.ctrl) (sentNow : work.ctrl.sent = near.sent ++ sent)
    (opened : Opened near far work.socket.uiLocalTpId work.socket)
    (handed : ∀ mbuf ∈ sent, mbuf.stHead.uiSrcTpId = work.socket.uiLocalTpId ∧
      FromSocket far work.socket.uiLocalTpId work.socket mbuf) :
    Moves near far arrived work.store := by
  have stored : work.store.hSocketNap =
      update near.hSocketNap work.socket.uiLocalTpId (some work.socket) := by
    simp [TpWork.store, TpCtrl.setSocket, sockets]
  constructor
  · intro other socketAfter foundAfter
    rw [stored, update_apply] at foundAfter
    split at foundAfter
    · next same =>
      cases foundAfter
      exact .inr (same ▸ opened)
    · exact .inl ⟨socketAfter, socketAfter, socketAfter, foundAfter, .stay, .inl rfl, rfl⟩
  · intro other there
    rw [stored, update_apply]
    split
    · rfl
    · exact there
  · intro mbuf inside
    simp only [TpWork.store, TpCtrl.setSocket, sentNow] at inside
    rcases mem_append.mp inside with old | new
    · exact .inl old
    obtain ⟨src, fromSocket⟩ := handed mbuf new
    refine .inr (.inr ⟨work.socket, ?_, src ▸ fromSocket⟩)
    rw [stored, src, update_self]
  · intro uiProtocolId protocol foundAfter
    obtain ⟨old, foundOld, same⟩ := listeners uiProtocolId protocol foundAfter
    exact same ▸ nearOk.listeners uiProtocolId old foundOld

theorem tpSocket_moves (fresh : ∀ uiTpId, outcome.socketAlloc = some uiTpId →
      uiTpId ≠ 0 ∧ near.hSocketNap uiTpId = none) (eType : TpType) :
    Moves near far arrived (tpSocket outcome near eType).1 := by
  unfold tpSocket
  split
  · exact .refl nearOk
  next uiTpId alloc =>
  obtain ⟨nonzero, absent⟩ := fresh uiTpId alloc
  have opened : Opened near far uiTpId (tpSocketNewSocket near uiTpId eType) :=
    ⟨absent, newSocket_ok near far nonzero eType, nofun, rfl⟩
  have store := @Moves.of_opened near far arrived nearOk
    ⟨near, tpSocketNewSocket near uiTpId eType⟩ [] rfl (.refl near) (append_nil _).symm opened
    nofun
  exact store

include farOk

theorem tpBind_moves (uiProtocolId : UINT) :
    Moves near far arrived (tpBind outcome near uiTpId uiProtocolId).1 := by
  unfold tpBind
  split
  · exact .refl nearOk
  split
  · exact .refl nearOk
  split
  · exact .refl nearOk
  next socket found =>
  have stays : Moves near far arrived (TpWork.store ⟨near, socket⟩) :=
    setSocket_moves nearOk farOk found rfl
  simp only [tpProtocolBindProtocol]
  split
  · exact stays
  split
  · exact stays
  split
  · exact stays
  split
  · exact stays
  next unbound _ _ =>
  have bound : Change near far arrived uiTpId socket { socket with uiProtocolId := uiProtocolId } :=
    .bind uiProtocolId (not_not.mp unbound)
  have moves := Moves.of_effect nearOk farOk found rfl
    (Effect.refl ⟨near, { socket with uiProtocolId := uiProtocolId }⟩) bound (.inl rfl)
    nofun
  have socketOk := nearOk.sockets uiTpId socket found
  refine { moves with listeners := ?_, sent := fun mbuf inside => .inl inside }
  intro other protocol foundAfter
  simp only [TpWork.store, TpCtrl.setSocket, TpCtrl.setProtocol, update_apply] at foundAfter
  split at foundAfter
  · cases foundAfter
    exact socketOk.local_eq.symm ▸ socketOk.nonzero
  · exact nearOk.listeners other protocol foundAfter

omit farOk in
theorem tpListen_moves (uiTpId : UINT) : Moves near far arrived (tpListen near uiTpId).1 := by
  refine tpWithSocket_moves nearOk fun socket _ => ?_
  unfold tpProtocolListen
  split
  · exact .refl nearOk
  split
  · exact .refl nearOk
  split
  · exact .refl nearOk
  next protocol stored =>
  have listener := nearOk.listeners socket.uiProtocolId protocol stored
  exact setProtocol_moves nearOk listener

theorem record_moves (found : near.hSocketNap uiTpId = some socket)
    {start : TpSocket} (change : Change near far arrived uiTpId socket { start with
      stSendMbufQue := start.stSendMbufQue ++ [mbuf], iSn := start.iSn + 1 }) :
    Moves near far arrived (tpPktRecordAndSendPkt outcome ⟨near, start⟩ mbuf).store := by
  obtain ⟨_, _, closes, effect, handed⟩ := tpPktRecordAndSendPkt_effect outcome ⟨near, start⟩ mbuf
  refine .of_effect nearOk farOk found rfl effect change closes fun mbuf inside => .inr ?_
  have midOk := change.socketOk (nearOk.sockets uiTpId socket found) farOk
  obtain ⟨src, fromSocket⟩ := midOk.que mbuf (by
    rw [handed mbuf inside]
    exact mem_append_right _ (mem_singleton_self _))
  exact ⟨src, fromSocket.evolves midOk.nonzero (.refl far) closes.evolves⟩

theorem tpConnect_moves (uiProtocolId : UINT) :
    Moves near far arrived (tpConnect outcome near uiTpId uiProtocolId).1 := by
  unfold tpConnect
  split
  · exact .refl nearOk
  split
  · exact .refl nearOk
  split
  · exact .refl nearOk
  split
  · exact .refl nearOk
  split
  · exact .refl nearOk
  next proper _ socket found _ isInit =>
  exact record_moves nearOk farOk found (.connect uiProtocolId (not_not.mp isInit) proper)

theorem tpSendMbuf_moves (data : List UCHAR) :
    Moves near far arrived (tpSendMbuf outcome near uiTpId data).1 := by
  refine tpWithSocket_moves nearOk fun socket found => ?_
  have stays : Moves near far arrived (TpWork.store ⟨near, socket⟩) :=
    setSocket_moves nearOk farOk found rfl
  simp only [tpPktSendData]
  split
  · exact stays
  split
  · exact stays
  split
  · exact stays
  next established room =>
  exact record_moves nearOk farOk found
    (.send data (not_not.mp established) (Nat.lt_of_not_le room))

theorem tpAccept_moves (uiTpId : UINT) :
    Moves near far arrived (tpAccept near uiTpId).1 := by
  unfold tpAccept
  split
  · exact .refl nearOk
  split
  · exact .refl nearOk
  unfold tpProtocolAccept
  split
  · exact .refl nearOk
  split
  · exact .refl nearOk
  split
  · exact .refl nearOk
  next protocol stored =>
  split
  · exact .refl nearOk
  next i accepted isAccepted =>
  obtain ⟨_, -, found, -⟩ := tpProtocolFindAccepted_eq_some isAccepted
  have cleared : Moves near far arrived (near.setSocket
      { accepted with uiFlag := accepted.uiFlag &&& ~~~tpSocketFlagAccepting }) :=
    setSocket_moves nearOk farOk found rfl
  refine { cleared with listeners := ?_, sent := fun mbuf inside => .inl inside }
  intro other listens foundAfter
  simp only [TpCtrl.setProtocol, TpCtrl.setSocket, update_apply] at foundAfter
  split at foundAfter
  · cases foundAfter
    exact nearOk.listeners _ protocol stored
  · exact nearOk.listeners other listens foundAfter

theorem tpSetOptNbio_moves (nbio : Bool) :
    Moves near far arrived (tpSetOptNbio near uiTpId nbio).1 := by
  refine tpWithSocket_moves nearOk fun socket found => setSocket_moves nearOk farOk found ?_
  unfold tpSocketSetOptNbio
  split <;> rfl

theorem tpSetOptKeepAliveTime_moves (usIdle usIntval usMaxProbeCount : USHORT) :
    Moves near far arrived
      (tpSetOptKeepAliveTime near uiTpId usIdle usIntval usMaxProbeCount).1 :=
  tpWithSocket_moves nearOk fun _ found => setSocket_moves nearOk farOk found rfl

omit farOk in
theorem tpSetDftKeepAlive_moves (usIdle usIntval usMaxProbeCount : USHORT) :
    Moves near far arrived (tpSetDftKeepAlive near usIdle usIntval usMaxProbeCount) :=
  .of_same nearOk (fun _ socket found => ⟨socket, found, rfl⟩) (fun _ => id)
    (fun _ inside => .inl inside) (.refl near)

theorem tpRecvMbuf_moves :
    Moves near far arrived (tpRecvMbuf near uiTpId).1 := by
  unfold tpRecvMbuf
  split
  · exact .refl nearOk
  split
  · exact .refl nearOk
  · next socket found => exact setSocket_moves nearOk farOk found rfl

end

theorem tpPktBuildProtocolPkt_core {other : TpSocket} (same : socket.core = other.core)
    (uiPktFlag : UINT) :
    tpPktBuildProtocolPkt socket uiPktFlag = tpPktBuildProtocolPkt other uiPktFlag := by
  change tpPktBuildProtocolPkt socket.core uiPktFlag = tpPktBuildProtocolPkt other.core uiPktFlag
  rw [same]

theorem SocketOk.answers (socketOk : SocketOk far uiTpId socket) (settled : socket.uiStatus.Settled)
    (matched : socket.uiPeerTpId ≠ 0 → Mutual far uiTpId socket.uiPeerTpId) {uiPktFlag : UINT}
    (flag : uiPktFlag = tpPktFlagAck ∨ uiPktFlag = tpPktFlagKeepAlive) :
    (tpPktBuildProtocolPkt socket uiPktFlag).stHead.uiSrcTpId = uiTpId ∧
      FromSocket far uiTpId socket (tpPktBuildProtocolPkt socket uiPktFlag) :=
  ⟨socketOk.local_eq, .answer flag rfl matched settled⟩

theorem SocketOk.answers_established (socketOk : SocketOk far uiTpId socket)
    (established : socket.uiStatus = .establish) {uiPktFlag : UINT}
    (flag : uiPktFlag = tpPktFlagAck ∨ uiPktFlag = tpPktFlagKeepAlive) :
    (tpPktBuildProtocolPkt socket uiPktFlag).stHead.uiSrcTpId = uiTpId ∧
      FromSocket far uiTpId socket (tpPktBuildProtocolPkt socket uiPktFlag) := by
  refine socketOk.answers ?_ (fun _ => (socketOk.establish established).2.2) flag
  rw [established]
  decide

include nearOk in
theorem tpTimer_moves {timeOut : TpWork → TpWork}
    (moves : ∀ socket, near.hSocketNap uiTpId = some socket →
      Moves near far arrived (timeOut ⟨near, socket⟩).store) :
    Moves near far arrived (tpTimer near uiTpId timeOut) := by
  unfold tpTimer
  split
  · exact .refl nearOk
  · next socket found => exact moves socket found

include nearOk farOk in
theorem tpPktResendTimeOut_moves (found : near.hSocketNap uiTpId = some socket) :
    Moves near far arrived (tpPktResendTimeOut ⟨near, socket⟩).store := by
  unfold tpPktResendTimeOut
  split
  · exact .of_effect nearOk farOk found rfl (tpSocketAbort_effect ⟨near, socket⟩) .stay (.inr rfl)
      nofun
  obtain ⟨_, effect, handed⟩ := tpPtkSendQueMbuf_effect
    ⟨near, { socket with usResendCount := socket.usResendCount + 1 }⟩
  have same : ({ socket with usResendCount := socket.usResendCount + 1 } : TpSocket).core =
      socket.core := rfl
  refine .of_effect nearOk farOk found rfl (effect.congr same) .stay (.inl rfl)
    fun mbuf inside => .inr ?_
  exact (nearOk.sockets uiTpId socket found).que mbuf (handed mbuf inside)

include nearOk farOk in
theorem tpPktKeepAlive_moves (found : near.hSocketNap uiTpId = some socket) :
    Moves near far arrived (tpPktKeepAlive ⟨near, socket⟩).store := by
  simp only [tpPktKeepAlive]
  split
  · have effect := tpSocketAbort_effect
      ⟨near, { socket with stKeepAlive := (kaKeepAlive socket.stKeepAlive).1 }⟩
    refine .of_effect nearOk farOk found rfl (effect.congr ?_) .stay (.inr rfl) nofun
    rfl
  unfold tpPktSendKeepAlive
  split
  · exact setSocket_moves nearOk farOk found rfl
  next established =>
  have effect := (Effect.refl (TpWork.mk near { socket with
    stKeepAlive := (kaKeepAlive socket.stKeepAlive).1 })).send (tpPktBuildProtocolPkt { socket with
      stKeepAlive := (kaKeepAlive socket.stKeepAlive).1 } tpPktFlagKeepAlive)
  refine .of_effect nearOk farOk found rfl (effect.congr ?_) .stay (.inl rfl)
    fun mbuf inside => .inr ?_
  · rfl
  rw [mem_singleton.mp inside]
  exact (nearOk.sockets uiTpId socket found).answers_established (not_not.mp established)
    (.inr rfl)

include nearOk in
theorem sendRst_moves (pkt : TpPktHead) : Moves near far arrived (tpPktSendRst near pkt) := by
  refine .of_same nearOk (fun _ socket found => ⟨socket, found, rfl⟩) (fun _ => id) ?_ (.refl near)
  intro mbuf inside
  rcases mem_append.mp inside with old | new
  · exact .inl old
  · rw [mem_singleton.mp new]
    exact .inr (.inl rfl)

theorem tpPktFlagsIn_rst (flag : pkt.uiPktFlag = tpPktFlagRst) :
    tpPktFlagsIn outcome pkt work = tpPktRstInput pkt work := by
  simp only [tpPktFlagsIn, tpPktSynFlagIn, tpPktAckFlagIn, flag]
  rfl

theorem tpPktFlagsIn_keepAlive (flag : pkt.uiPktFlag = tpPktFlagKeepAlive) :
    tpPktFlagsIn outcome pkt work = tpPktKeepAliveInput pkt work := by
  simp only [tpPktFlagsIn, tpPktSynFlagIn, tpPktAckFlagIn, flag]
  rfl

theorem tpPktFlagsIn_ack (flag : pkt.uiPktFlag = tpPktFlagAck) :
    tpPktFlagsIn outcome pkt work = tpPktAckFlagIn outcome pkt work := by
  simp only [tpPktFlagsIn, tpPktSynFlagIn, flag]
  rfl

theorem tpPktFlagsIn_synAck (flag : pkt.uiPktFlag = tpPktFlagSyn ||| tpPktFlagAck) :
    tpPktFlagsIn outcome pkt work = tpPktAckFlagIn outcome pkt
      (tpPktSendAck { work with socket.iAckSn := pkt.iSn + 1 }) := by
  simp only [tpPktFlagsIn, tpPktSynFlagIn, flag]
  rfl

section

variable (flag : hasFlag pkt.uiPktFlag tpPktFlagAck = true)

include flag

theorem tpPktAckFlagIn_synSend (sending : work.socket.uiStatus = .synSend) :
    tpPktAckFlagIn outcome pkt work = (tpPktAck1Input outcome pkt work).1 := by
  simp [tpPktAckFlagIn, flag, sending]

theorem tpPktAckFlagIn_synRcvd (rcvd : work.socket.uiStatus = .synRcvd) :
    tpPktAckFlagIn outcome pkt work = (tpPktAck2Input outcome pkt work).1 := by
  simp [tpPktAckFlagIn, flag, rcvd]

theorem tpPktAckFlagIn_settled (settled : work.socket.uiStatus.Settled) :
    tpPktAckFlagIn outcome pkt work = tpPktAckInput pkt work := by
  rw [tpPktAckFlagIn, if_pos flag]
  split
  · next sending => exact absurd sending settled.2.1
  · next rcvd => exact absurd rcvd settled.2.2
  · rfl

end

theorem tpPktEstablish_effect (outcome : TpOutcome) (pkt : TpPktHead) (work : TpWork) :
    Effect work (tpPktEstablish outcome pkt work).1 { work.socket with uiStatus := .closed } [] ∨
      ∃ sent, Effect work (tpPktEstablish outcome pkt work).1
          { work.socket with
            uiStatus := .establish
            stSendMbufQue := work.socket.stSendMbufQue.dropWhile (tpPktIsAcked pkt.iAckSn) } sent ∧
        ∀ mbuf ∈ sent, mbuf ∈ work.socket.stSendMbufQue.dropWhile (tpPktIsAcked pkt.iAckSn) := by
  have started := tpPktStartKeepAlive_effect outcome { work with socket.uiStatus := .establish }
  have begun : Effect work
      (tpPktStartKeepAlive outcome { work with socket.uiStatus := .establish }).1
      { work.socket with uiStatus := .establish } [] := { started with }
  simp only [tpPktEstablish]
  split
  · left
    have closed := core_closed begun.core
    exact (begun.trans (tpSocketAbort_effect _)).congr closed
  right
  obtain ⟨sent, effect, handed⟩ := tpPktAckInput_effect pkt
    (tpPktStartKeepAlive outcome { work with socket.uiStatus := .establish }).1
  refine ⟨sent, (begun.trans effect).congr ?_, handed⟩
  have same := begun.core
  simp only [TpSocket.core, TpSocket.mk.injEq] at same ⊢
  simp [same]

theorem tpPktAck1Input_acked (outcome : TpOutcome) (sending : work.socket.uiStatus = .synSend)
    (acks : pkt.iAckSn = work.socket.iSn) :
    (tpPktAck1Input outcome pkt work).1 = (tpPktEstablish outcome pkt work).1 := by
  rw [tpPktAck1Input, if_pos ⟨acks, sending⟩]

section Arrival

variable (found : near.hSocketNap mbuf.stHead.uiDstTpId = some socket)
  (peer : socket.uiPeerTpId ≠ 0 → socket.uiPeerTpId = mbuf.stHead.uiSrcTpId)

include nearOk farOk found

theorem rst_moves :
    Moves near far (some mbuf)
      (tpPktRstInput mbuf.stHead ⟨near, tpPktResetKeepAlive socket⟩).store := by
  unfold tpPktRstInput
  split
  · have effect := tpSocketAbort_effect ⟨near, tpPktResetKeepAlive socket⟩
    have same : ({ tpPktResetKeepAlive socket with uiStatus := .closed } : TpSocket).core =
        ({ socket with uiStatus := .closed } : TpSocket).core := rfl
    exact .of_effect nearOk farOk found rfl (effect.congr same) .stay (.inr rfl) nofun
  · exact setSocket_moves nearOk farOk found rfl

/-- The answer is sent first, then what the socket still keeps. -/
theorem answered_moves {answered mid last : TpSocket} {after : TpWork} {sent : List Mbuf}
    (effect : Effect (tpPktSendAck ⟨near, answered⟩) after last sent) (same : last.core = mid.core)
    (change : Change near far (some mbuf) mbuf.stHead.uiDstTpId socket mid)
    (answer : answered.uiLocalTpId = mbuf.stHead.uiDstTpId ∧
      FromSocket far mbuf.stHead.uiDstTpId mid (tpPktBuildProtocolPkt answered tpPktFlagAck))
    (handed : ∀ other ∈ sent, other ∈ mid.stSendMbufQue) : Moves near far (some mbuf) after.store := by
  have midOk := change.socketOk (nearOk.sockets _ socket found) farOk
  have begun := (Effect.refl ⟨near, answered⟩).send (tpPktBuildProtocolPkt answered tpPktFlagAck)
  refine .of_effect nearOk farOk found rfl ((begun.trans effect).congr same) change (.inl rfl)
    fun other inside => .inr ?_
  rcases mem_append.mp inside with first | later
  · rw [mem_singleton.mp first]
    exact answer
  · exact midOk.que other (handed other later)

theorem sendAck_moves (established : socket.uiStatus = .establish) :
    Moves near far (some mbuf) (tpPktSendAck ⟨near, tpPktResetKeepAlive socket⟩).store := by
  have answer := (nearOk.sockets _ socket found).answers_established established (.inl rfl)
  refine answered_moves nearOk farOk found (.refl _) ?_ .stay answer nofun
  rfl

theorem keepAlive_moves :
    Moves near far (some mbuf)
      (tpPktKeepAliveInput mbuf.stHead ⟨near, tpPktResetKeepAlive socket⟩).store := by
  unfold tpPktKeepAliveInput
  split
  · next answers => exact sendAck_moves nearOk farOk found answers.2.2
  · exact setSocket_moves nearOk farOk found rfl

variable {origin : TpSocket}
  (arrives : ArrivesFrom near far (some mbuf) mbuf.stHead.uiDstTpId mbuf origin)

include peer arrives

theorem acked_moves
    (flag : mbuf.stHead.uiPktFlag = tpPktFlagAck) (settled : socket.uiStatus.Settled) :
    Moves near far (some mbuf)
      (tpPktAckInput mbuf.stHead ⟨near, tpPktResetKeepAlive socket⟩).store := by
  have change : Change near far (some mbuf) mbuf.stHead.uiDstTpId socket _ :=
    .acked mbuf origin arrives flag settled peer
  have midOk := change.socketOk (nearOk.sockets _ socket found) farOk
  obtain ⟨_, effect, handed⟩ := tpPktAckInput_effect mbuf.stHead ⟨near, tpPktResetKeepAlive socket⟩
  refine .of_effect nearOk farOk found rfl (effect.congr ?_) change (.inl rfl)
    fun other inside => .inr (midOk.que other (handed other inside))
  rfl

theorem confirmed_moves (flag : mbuf.stHead.uiPktFlag = tpPktFlagAck) (rcvd : socket.uiStatus = .synRcvd) :
    Moves near far (some mbuf)
      (tpPktAck2Input outcome mbuf.stHead ⟨near, tpPktResetKeepAlive socket⟩).1.store := by
  have socketOk := nearOk.sockets _ socket found
  have listens := (socketOk.synRcvd rcvd).2.2.2.2
  unfold tpPktAck2Input
  split
  · exact setSocket_moves nearOk farOk found rfl
  have change : Change near far (some mbuf) mbuf.stHead.uiDstTpId socket _ :=
    .confirmed mbuf origin arrives flag rcvd (peer (socketOk.listen listens).1)
  have midOk := change.socketOk socketOk farOk
  rcases tpPktEstablish_effect outcome mbuf.stHead ⟨near, tpPktResetKeepAlive socket⟩ with
    effect | ⟨_, effect, handed⟩
  · have same : ({ tpPktResetKeepAlive socket with uiStatus := .closed } : TpSocket).core =
        ({ socket with uiStatus := .closed } : TpSocket).core := rfl
    exact .of_effect nearOk farOk found rfl (effect.congr same) .stay (.inr rfl) nofun
  · refine .of_effect nearOk farOk found rfl (effect.congr ?_) change (.inl rfl)
      fun other inside => .inr (midOk.que other (handed other inside))
    rfl

section SynAck

variable (flag : mbuf.stHead.uiPktFlag = tpPktFlagSyn ||| tpPktFlagAck)

include flag

theorem again_moves (settled : socket.uiStatus.Settled) :
    Moves near far (some mbuf) (tpPktAckInput mbuf.stHead (tpPktSendAck ⟨near,
      { tpPktResetKeepAlive socket with iAckSn := mbuf.stHead.iSn + 1 }⟩)).store := by
  have socketOk := nearOk.sockets _ socket found
  have change : Change near far (some mbuf) mbuf.stHead.uiDstTpId socket _ :=
    .again mbuf origin arrives flag settled peer
  obtain ⟨-, matched, -⟩ := arrives.connects farOk flag
  obtain ⟨_, effect, handed⟩ := tpPktAckInput_effect mbuf.stHead (tpPktSendAck ⟨near,
    { tpPktResetKeepAlive socket with iAckSn := mbuf.stHead.iSn + 1 }⟩)
  refine answered_moves nearOk farOk found effect ?_ change
    ⟨socketOk.local_eq, .answer (.inl rfl) rfl (fun nonzero => ?_) settled⟩ handed
  · rfl
  · exact (peer nonzero).symm ▸ matched

omit peer in
theorem connected_moves (sending : socket.uiStatus = .synSend) :
    Moves near far (some mbuf) (tpPktAck1Input outcome mbuf.stHead (tpPktSendAck ⟨near,
      { tpPktResetKeepAlive socket with
        uiPeerTpId := mbuf.stHead.uiSrcTpId, iAckSn := mbuf.stHead.iSn + 1 }⟩)).1.store := by
  have socketOk := nearOk.sockets _ socket found
  obtain ⟨-, matched, -⟩ := arrives.connects farOk flag
  have acks : mbuf.stHead.iAckSn = socket.iSn := by
    rw [(arrives.fromSocket.of_synAck flag).2.2.2.1, (socketOk.synSend sending).2.1]
  rw [tpPktAck1Input_acked outcome (by exact sending) (by exact acks)]
  rcases tpPktEstablish_effect outcome mbuf.stHead (tpPktSendAck ⟨near,
      { tpPktResetKeepAlive socket with
        uiPeerTpId := mbuf.stHead.uiSrcTpId, iAckSn := mbuf.stHead.iSn + 1 }⟩) with
    effect | ⟨sent, effect, handed⟩
  · refine answered_moves nearOk farOk found effect ?_ (.refused mbuf origin arrives flag sending)
      ⟨socketOk.local_eq, .answer (.inl rfl) rfl (fun _ => matched) settled_closed⟩ nofun
    rfl
  · refine answered_moves nearOk farOk found effect ?_ (.connected mbuf origin arrives flag sending)
      ⟨socketOk.local_eq, .answer (.inl rfl) rfl (fun _ => matched) settled_establish⟩ handed
    rfl

end SynAck

theorem push_moves (flag : mbuf.stHead.uiPktFlag = tpPktFlagData) (established : socket.uiStatus = .establish)
    (same : mbuf.stHead.iSn = socket.iAckSn) {after : TpSocket}
    (pushed : after.core = ({ socket with
      iAckSn := socket.iAckSn + 1, pushed := socket.pushed ++ [mbuf.data] } : TpSocket).core)
    {answered : TpSocket} (header : answered.core = ({ socket with
      iAckSn := socket.iAckSn + 1 } : TpSocket).core) :
    Moves near far (some mbuf) (TpWork.store
      ⟨tpPktSendPkt near (tpPktBuildProtocolPkt answered tpPktFlagAck), after⟩) := by
  have socketOk := nearOk.sockets _ socket found
  obtain ⟨-, nonzero, matched⟩ := socketOk.establish established
  have change : Change near far (some mbuf) mbuf.stHead.uiDstTpId socket _ :=
    .push mbuf origin arrives flag established (peer nonzero) same
  have effect := (Effect.refl ⟨near, after⟩).send (tpPktBuildProtocolPkt answered tpPktFlagAck)
  refine .of_effect nearOk farOk found rfl (effect.congr pushed) change (.inl rfl)
    fun other inside => .inr ?_
  rw [mem_singleton.mp inside, tpPktBuildProtocolPkt_core header]
  refine ⟨socketOk.local_eq, .answer (.inl rfl) rfl (fun _ => matched) ?_⟩
  exact established ▸ settled_establish

end Arrival

theorem tpProtocolAddAccepting_core {protocol after : TpProtocol} {added : TpSocket}
    (isAdded : tpProtocolAddAccepting protocol socket = some (after, added)) :
    added.core = socket.core ∧ after.uiLocalTpId = protocol.uiLocalTpId := by
  unfold tpProtocolAddAccepting at isAdded
  split at isAdded
  · cases isAdded
  · cases isAdded
    exact ⟨rfl, rfl⟩

theorem accepted_ok {origin : TpSocket} {uiListenTpId : UINT} (farOk : EndOk far near)
    (nonzero : uiTpId ≠ 0) (listens : uiListenTpId ≠ 0)
    (isOrigin : far.hSocketNap pkt.uiSrcTpId = some origin) (started : origin.uiStatus ≠ .init)
    (connector : origin.uiListenTpId = 0) (protocol : pkt.uiProtocolId = origin.uiProtocolId)
    (proper : ¬ (pkt.uiProtocolId = 0 ∨ tpProtoMax < pkt.uiProtocolId)) (iSn : pkt.iSn = 0)
    (accepting : TpSocket) (same : accepting.core = ({ tpSocketNewSocket near uiTpId .conn with
      uiProtocolId := pkt.uiProtocolId
      uiPeerTpId := pkt.uiSrcTpId
      iAckSn := pkt.iSn + 1
      uiStatus := .synRcvd
      uiListenTpId := uiListenTpId } : TpSocket).core) :
    SocketOk far uiTpId { accepting with
      stSendMbufQue := accepting.stSendMbufQue ++
        [tpPktBuildProtocolPkt accepting (tpPktFlagSyn ||| tpPktFlagAck)]
      iSn := accepting.iSn + 1 } := by
  have peer := (farOk.sockets _ origin isOrigin).nonzero
  rw [tpPktBuildProtocolPkt_core same]
  simp only [TpSocket.core, TpSocket.mk.injEq] at same
  obtain ⟨-, -, -, listen, localId, peerId, status, sn, ackSn, que, -, -, -, -, accepted,
    pushed⟩ := same
  constructor
  · exact localId
  · exact nonzero
  · exact fun isInit => (nomatch status.symm.trans isInit)
  · exact fun sending => (nomatch status.symm.trans sending)
  · intro _
    simp only [sn, ackSn, iSn, accepted, pushed, listen]
    exact ⟨rfl, rfl, rfl, rfl, listens⟩
  · exact fun established => (nomatch status.symm.trans established)
  · intro _
    simp only [peerId]
    exact ⟨origin, isOrigin, started⟩
  · intro _
    simp only [peerId]
    exact ⟨peer, origin, isOrigin, started, connector, protocol ▸ (not_or.mp proper).1,
      protocol ▸ (not_or.mp proper).2⟩
  intro mbuf inside
  simp only [que] at inside
  rw [mem_singleton.mp inside]
  refine ⟨rfl, .synAck rfl peerId.symm ?_ rfl ?_ ?_⟩
  · simp only [peerId]
    exact peer
  · simp only [tpPktBuildProtocolPkt, tpPktFillPktHeader, iSn]
    rfl
  · simp only [listen]
    exact listens

include nearOk farOk in
theorem tpPktSynInput_moves
    (fresh : ∀ uiTpId, outcome.socketAlloc = some uiTpId →
      uiTpId ≠ 0 ∧ near.hSocketNap uiTpId = none)
    (sentOk : SentOk far near mbuf) (dst : mbuf.stHead.uiDstTpId = 0)
    (proper : ¬ (mbuf.stHead.uiProtocolId = 0 ∨ tpProtoMax < mbuf.stHead.uiProtocolId)) :
    Moves near far (some mbuf) (tpPktSynInput outcome near mbuf.stHead).1 := by
  unfold tpPktSynInput
  split
  · exact sendRst_moves nearOk _
  next isSyn =>
  split
  · exact sendRst_moves nearOk _
  next protocol isProtocol =>
  split
  · exact sendRst_moves nearOk _
  split
  · exact sendRst_moves nearOk _
  next uiTpId alloc =>
  simp only
  split
  · exact sendRst_moves nearOk _
  next protocolAfter accepting isAdded =>
  obtain ⟨nonzero, absent⟩ := fresh uiTpId alloc
  obtain ⟨core, listener⟩ := tpProtocolAddAccepting_core isAdded
  -- Of the packets with the flag `SYN`, only a connect has no destination.
  have isConnect : ∃ origin, far.hSocketNap mbuf.stHead.uiSrcTpId = some origin ∧
      origin.uiStatus ≠ .init ∧ origin.uiListenTpId = 0 ∧
      mbuf.stHead.uiProtocolId = origin.uiProtocolId ∧ mbuf.stHead.iSn = 0 := by
    rcases sentOk with rst | ⟨origin, isOrigin, fromSocket⟩
    · rw [rst] at isSyn
      exact absurd rfl isSyn
    cases fromSocket with
    | syn _ _ iSn started listen protocol =>
      exact ⟨origin, isOrigin, started, listen, protocol, iSn⟩
    | synAck _ toPeer peer => exact absurd (toPeer.symm.trans dst) peer
    | answer flag =>
      rcases flag with flag | flag
      · rw [flag] at isSyn
        exact absurd rfl isSyn
      · rw [flag] at isSyn
        exact absurd rfl isSyn
    | data flag =>
      rw [flag] at isSyn
      exact absurd rfl isSyn
  obtain ⟨_, isOrigin, started, connector, protocolId, iSn⟩ := isConnect
  have listens := nearOk.listeners _ protocol isProtocol
  have queued := accepted_ok farOk nonzero listens isOrigin started connector protocolId proper iSn
    accepting core
  unfold tpPktSendSynAck
  obtain ⟨_, sent, closes, effect, handed⟩ := tpPktRecordAndSendPkt_effect outcome
    ⟨near.setProtocol mbuf.stHead.uiProtocolId (some protocolAfter), accepting⟩
    (tpPktBuildProtocolPkt accepting (tpPktFlagSyn ||| tpPktFlagAck))
  generalize tpPktRecordAndSendPkt outcome
    ⟨near.setProtocol mbuf.stHead.uiProtocolId (some protocolAfter), accepting⟩
    (tpPktBuildProtocolPkt accepting (tpPktFlagSyn ||| tpPktFlagAck)) = work at effect ⊢
  have workOk := (closes.socketOk queued).of_core effect.core
  have localId := workOk.local_eq
  have opened : Opened near far uiTpId work.socket := by
    refine ⟨absent, workOk, ?_, ?_⟩
    · rw [core_status effect.core]
      rcases closes with rfl | rfl
      · exact (core_status core).symm ▸ nofun
      · exact nofun
    · rw [core_pushed effect.core]
      rcases closes with rfl | rfl <;> exact core_pushed core
  refine .of_opened nearOk effect.sockets ?_ effect.sent (localId.symm ▸ opened)
    fun other inside => ?_
  · intro uiProtocolId found foundAfter
    obtain ⟨between, isBetween, sameBetween⟩ := effect.listeners uiProtocolId found foundAfter
    obtain ⟨old, isOld, sameOld⟩ :=
      ListenersKept.setProtocol isProtocol listener.symm uiProtocolId between isBetween
    exact ⟨old, isOld, sameOld.trans sameBetween⟩
  obtain ⟨src, fromSocket⟩ := queued.que other (by
    rw [handed other inside]
    exact mem_append_right _ (mem_singleton_self _))
  rw [localId]
  exact ⟨src, (fromSocket.evolves nonzero (.refl far) closes.evolves).of_core effect.core⟩

section Input

variable (found : near.hSocketNap mbuf.stHead.uiDstTpId = some socket)
  (peer : socket.uiPeerTpId ≠ 0 → socket.uiPeerTpId = mbuf.stHead.uiSrcTpId)
  {origin : TpSocket} (arrives : ArrivesFrom near far (some mbuf) mbuf.stHead.uiDstTpId mbuf origin)
  (addressed : mbuf.stHead.uiDstTpId ≠ 0)

include farOk found addressed

include arrives in
theorem answered_peer
    (flag : mbuf.stHead.uiPktFlag = tpPktFlagAck ∨ mbuf.stHead.uiPktFlag = tpPktFlagKeepAlive) :
    socket.uiPeerTpId ≠ 0 := by
  obtain ⟨dst, matched, -⟩ := arrives.fromSocket.of_answer flag
  obtain ⟨_, isMine, same⟩ := matched (dst ▸ addressed)
  rw [← dst, found] at isMine
  cases isMine
  rw [same]
  exact (farOk.sockets _ origin arrives.found).nonzero

include nearOk peer

include arrives in
theorem ackFlag_moves (flag : mbuf.stHead.uiPktFlag = tpPktFlagAck) (unsent : socket.uiStatus ≠ .synSend) :
    Moves near far (some mbuf)
      (tpPktFlagsIn outcome mbuf.stHead ⟨near, tpPktResetKeepAlive socket⟩).store := by
  have known := answered_peer farOk found arrives addressed (.inl flag)
  have socketOk := nearOk.sockets _ socket found
  have isAck : hasFlag mbuf.stHead.uiPktFlag tpPktFlagAck = true := by
    rw [flag]
    rfl
  rw [tpPktFlagsIn_ack flag]
  by_cases rcvd : socket.uiStatus = .synRcvd
  · rw [tpPktAckFlagIn_synRcvd isAck (by exact rcvd)]
    exact confirmed_moves nearOk farOk found peer arrives flag rcvd
  have settled : socket.uiStatus.Settled :=
    ⟨fun isInit => known (socketOk.init isInit).1, unsent, rcvd⟩
  rw [tpPktAckFlagIn_settled isAck (by exact settled)]
  exact acked_moves nearOk farOk found peer arrives flag settled

omit addressed in
include arrives in
theorem synAck_moves (flag : mbuf.stHead.uiPktFlag = tpPktFlagSyn ||| tpPktFlagAck)
    (unsent : socket.uiStatus ≠ .synSend) :
    Moves near far (some mbuf)
      (tpPktFlagsIn outcome mbuf.stHead ⟨near, tpPktResetKeepAlive socket⟩).store := by
  have socketOk := nearOk.sockets _ socket found
  have isAck : hasFlag mbuf.stHead.uiPktFlag tpPktFlagAck = true := by
    rw [flag]
    rfl
  obtain ⟨dst, -, -, -, listens⟩ := arrives.fromSocket.of_synAck flag
  obtain ⟨-, _, isMine, started, connector, -⟩ :=
    (farOk.sockets _ origin arrives.found).listen listens
  rw [← dst, found] at isMine
  cases isMine
  have settled : socket.uiStatus.Settled :=
    ⟨started, unsent, fun rcvd => (socketOk.synRcvd rcvd).2.2.2.2 connector⟩
  rw [tpPktFlagsIn_synAck flag, tpPktAckFlagIn_settled isAck (by exact settled)]
  exact again_moves nearOk farOk found peer arrives flag settled

theorem flagsIn_moves (sentOk : SentOk far near mbuf) (noData : mbuf.stHead.uiPktFlag ≠ tpPktFlagData)
    (unsent : socket.uiStatus ≠ .synSend) :
    Moves near far (some mbuf)
      (tpPktFlagsIn outcome mbuf.stHead ⟨near, tpPktResetKeepAlive socket⟩).store := by
  rcases sentOk with rst | ⟨_, isOrigin, fromSocket⟩
  · rw [tpPktFlagsIn_rst rst]
    exact rst_moves nearOk farOk found
  have arrives := ArrivesFrom.mk rfl rfl isOrigin fromSocket
  cases fromSocket with
  | syn _ dst => exact absurd dst addressed
  | synAck flag => exact synAck_moves nearOk farOk found peer arrives flag unsent
  | answer flag =>
    rcases flag with ack | keepAlive
    · exact ackFlag_moves nearOk farOk found peer arrives addressed ack unsent
    · rw [tpPktFlagsIn_keepAlive keepAlive]
      exact keepAlive_moves nearOk farOk found
  | data flag => exact absurd flag noData

omit peer in
/-- Of the packets with the flag `ACK`, only the answer to a connect reaches a
socket that has sent one. -/
theorem synSend_moves (sentOk : SentOk far near mbuf)
    (isAck : hasFlag mbuf.stHead.uiPktFlag tpPktFlagAck = true)
    (sending : socket.uiStatus = .synSend) :
    Moves near far (some mbuf) (tpPktFlagsIn outcome mbuf.stHead
      ⟨near, { tpPktResetKeepAlive socket with uiPeerTpId := mbuf.stHead.uiSrcTpId }⟩).store := by
  rcases sentOk with rst | ⟨origin, isOrigin, fromSocket⟩
  · rw [rst] at isAck
    exact absurd isAck (by decide)
  have arrives := ArrivesFrom.mk rfl rfl isOrigin fromSocket
  cases fromSocket with
  | syn _ dst => exact absurd dst addressed
  | synAck flag =>
    have connected := @connected_moves near far socket mbuf outcome nearOk farOk found origin
      arrives flag sending
    rw [tpPktFlagsIn_synAck flag, tpPktAckFlagIn_synSend isAck (by exact sending)]
    exact connected
  | answer flag =>
    have known := answered_peer farOk found arrives addressed flag
    exact absurd ((nearOk.sockets _ socket found).synSend sending).1 known
  | data flag =>
    rw [flag] at isAck
    exact absurd isAck (by decide)

end Input

section

include nearOk farOk

variable
  (fresh : ∀ uiTpId, outcome.socketAlloc = some uiTpId → uiTpId ≠ 0 ∧ near.hSocketNap uiTpId = none)

include fresh in
theorem tpPktProtocolPktIn_moves
    (sentOk : SentOk far near mbuf) (noData : mbuf.stHead.uiPktFlag ≠ tpPktFlagData) :
    Moves near far (some mbuf) (tpPktProtocolPktIn outcome near mbuf.stHead).1 := by
  unfold tpPktProtocolPktIn
  split
  · exact .refl nearOk
  next proper =>
  split
  · next dst => exact tpPktSynInput_moves nearOk farOk fresh sentOk dst proper
  next addressed =>
  split
  · split
    · exact sendRst_moves nearOk _
    · exact .refl nearOk
  next socket isFound =>
  obtain ⟨found, peer⟩ := tpPktFindSocket_eq_some isFound
  simp only
  split
  · next sending =>
    split
    · exact setSocket_moves nearOk farOk found rfl
    next isAck =>
    rw [Bool.not_eq_true', Bool.not_eq_false] at isAck
    exact synSend_moves nearOk farOk found addressed sentOk isAck sending
  · next unsent => exact flagsIn_moves nearOk farOk found peer addressed sentOk noData unsent

theorem tpPktDataInput_moves
    (sentOk : SentOk far near mbuf) (flag : hasFlag mbuf.stHead.uiPktFlag tpPktFlagData = true) :
    Moves near far (some mbuf) (tpPktDataInput near mbuf.data mbuf.stHead).1 := by
  unfold tpPktDataInput
  split
  · exact .refl nearOk
  split
  · exact sendRst_moves nearOk _
  next socket isFound =>
  obtain ⟨found, peer⟩ := tpPktFindSocket_eq_some isFound
  split
  · exact sendRst_moves nearOk _
  simp only
  split
  · exact setSocket_moves nearOk farOk found rfl
  next ready =>
  have established := not_not.mp (not_or.mp ready).1
  split
  · next same =>
    rcases sentOk with rst | ⟨_, isOrigin, fromSocket⟩
    · rw [rst] at flag
      exact absurd flag (by decide)
    have isData : mbuf.stHead.uiPktFlag = tpPktFlagData := by
      cases fromSocket with
      | data isData => exact isData
      | syn other | synAck other =>
        rw [other] at flag
        exact absurd flag (by decide)
      | answer other =>
        rcases other with other | other <;>
          · rw [other] at flag
            exact absurd flag (by decide)
    have answers : ({ tpPktResetKeepAlive socket with
        iAckSn := (tpPktResetKeepAlive socket).iAckSn + 1 } : TpSocket).core =
        ({ socket with iAckSn := socket.iAckSn + 1 } : TpSocket).core := rfl
    refine push_moves nearOk farOk found peer ⟨rfl, rfl, isOrigin, fromSocket⟩ isData established same ?_
      answers
    rfl
  · exact sendAck_moves nearOk farOk found established

include fresh in
theorem tpPktInput_moves (sentOk : SentOk far near mbuf) :
    Moves near far (some mbuf) (tpPktInput outcome near mbuf).1 := by
  unfold tpPktInput
  split
  · next noData =>
    refine tpPktProtocolPktIn_moves nearOk farOk fresh sentOk fun flag => ?_
    rw [flag] at noData
    exact absurd noData (by decide)
  · next isData =>
    rw [Bool.not_eq_true', Bool.not_eq_false] at isData
    exact tpPktDataInput_moves nearOk farOk sentOk isData

theorem TpCall.moves {call : TpCall}
    (enabled : call.Enabled outcome near) (open' : ∀ uiTpId, call ≠ .close uiTpId)
    (authentic : ∀ mbuf, call = .pktInput mbuf → mbuf ∈ far.sent) :
    Moves near far call.packet (call.run outcome near) := by
  cases call with
  | socket eType => exact tpSocket_moves nearOk enabled.1 eType
  | bind _ uiProtocolId => exact tpBind_moves nearOk farOk uiProtocolId
  | listen uiTpId => exact tpListen_moves nearOk uiTpId
  | connect _ uiProtocolId => exact tpConnect_moves nearOk farOk uiProtocolId
  | accept uiTpId => exact tpAccept_moves nearOk farOk uiTpId
  | setOptNbio _ nbio => exact tpSetOptNbio_moves nearOk farOk nbio
  | setOptKeepAliveTime _ usIdle usIntval usMaxProbeCount =>
    exact tpSetOptKeepAliveTime_moves nearOk farOk usIdle usIntval usMaxProbeCount
  | setDftKeepAlive usIdle usIntval usMaxProbeCount =>
    exact tpSetDftKeepAlive_moves nearOk usIdle usIntval usMaxProbeCount
  | sendMbuf _ data => exact tpSendMbuf_moves nearOk farOk data
  | recvMbuf => exact tpRecvMbuf_moves nearOk farOk
  | close uiTpId => exact absurd rfl (open' uiTpId)
  | tiggerKeepAlive =>
    simp only [TpCall.run, tpTiggerKeepAlive]
    split
    · exact .refl nearOk
    · exact tpTimer_moves nearOk fun _ found => tpPktKeepAlive_moves nearOk farOk found
  | resendTimeOut =>
    exact tpTimer_moves nearOk fun _ found => tpPktResendTimeOut_moves nearOk farOk found
  | keepAliveTimeOut =>
    exact tpTimer_moves nearOk fun _ found => tpPktKeepAlive_moves nearOk farOk found
  | pktInput mbuf =>
    exact tpPktInput_moves nearOk farOk enabled.1 (farOk.sent mbuf (authentic mbuf rfl))

end

def PairOk (pair : Endpoint → TpCtrl) : Prop :=
  ∀ endpoint, EndOk (pair endpoint) (pair endpoint.other)

variable {pair after : Endpoint → TpCtrl} {endpoint : Endpoint} {call : TpCall}

theorem tpCreate_ok : EndOk tpCreate tpCreate where
  sockets := nofun
  sent := nofun
  listeners := nofun

theorem Endpoint.other_ne (endpoint : Endpoint) : endpoint.other ≠ endpoint := by
  cases endpoint <;> exact nofun

theorem Endpoint.other_other (endpoint : Endpoint) : endpoint.other.other = endpoint := by
  cases endpoint <;> rfl

theorem Endpoint.eq_or_eq_other (endpoint other : Endpoint) :
    other = endpoint ∨ other = endpoint.other := by
  cases endpoint <;> cases other <;> simp [Endpoint.other]

theorem PairOk.moves (pairOk : PairOk pair)
    (stepped : tpPair.step pair (endpoint, outcome, call) after) :
    Moves (pair endpoint) (pair endpoint.other) call.packet (after endpoint) ∧
      after endpoint.other = pair endpoint.other := by
  obtain ⟨enabled, unclosed, authentic, same⟩ := stepped
  have farOk := pairOk endpoint.other
  rw [Endpoint.other_other] at farOk
  subst same
  rw [update_self, update_of_ne endpoint.other_ne]
  exact ⟨TpCall.moves (pairOk endpoint) farOk enabled unclosed authentic, rfl⟩

theorem PairOk.step (pairOk : PairOk pair)
    (stepped : tpPair.step pair (endpoint, outcome, call) after) : PairOk after := by
  obtain ⟨moves, stays⟩ := pairOk.moves stepped
  have nearOk := pairOk endpoint
  have farOk := pairOk endpoint.other
  rw [Endpoint.other_other] at farOk
  intro other
  rcases Endpoint.eq_or_eq_other endpoint other with rfl | rfl
  · rw [stays]
    exact moves.endOk nearOk farOk
  · rw [stays, Endpoint.other_other]
    exact farOk.far_grows (moves.grows nearOk)

theorem pairOk_start (started : tpPair.start pair) : PairOk pair := by
  intro endpoint
  rw [started endpoint, started endpoint.other]
  exact tpCreate_ok

end MyCode.Tp
