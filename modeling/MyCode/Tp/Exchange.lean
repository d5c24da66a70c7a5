import MyCode.Tp.Instance

/-!
# The exchange between two endpoints

Every packet that an endpoint has sent comes from one of its sockets, and what
the packet says of the socket stays true.  The changes of a socket are those of
`Change`; the packet that arrives with a call, if any, is one from the far side.
-/

namespace MyCode.Tp

open Function List

variable {near far nearAfter farAfter : TpCtrl} {uiTpId : UINT} {socket after : TpSocket}
  {mbuf : Mbuf} {arrived : Option Mbuf}

def TpStatus.Settled (status : TpStatus) : Prop :=
  status ≠ .init ∧ status ≠ .synSend ∧ status ≠ .synRcvd

instance (status : TpStatus) : Decidable status.Settled :=
  inferInstanceAs (Decidable (_ ∧ _ ∧ _))

/-- The far socket of a packet's destination belongs to its source. -/
def Mutual (far : TpCtrl) (uiTpId uiPeerTpId : UINT) : Prop :=
  ∃ peer, far.hSocketNap uiPeerTpId = some peer ∧ peer.uiPeerTpId = uiTpId

inductive FromSocket (far : TpCtrl) (uiTpId : UINT) (socket : TpSocket) (mbuf : Mbuf) : Prop where
  | syn :
      mbuf.stHead.uiPktFlag = tpPktFlagSyn →
      mbuf.stHead.uiDstTpId = 0 →
      mbuf.stHead.iSn = 0 →
      socket.uiStatus ≠ .init →
      socket.uiListenTpId = 0 →
      mbuf.stHead.uiProtocolId = socket.uiProtocolId →
      socket.uiProtocolId ≠ 0 →
      FromSocket far uiTpId socket mbuf
  | synAck :
      mbuf.stHead.uiPktFlag = tpPktFlagSyn ||| tpPktFlagAck →
      mbuf.stHead.uiDstTpId = socket.uiPeerTpId →
      socket.uiPeerTpId ≠ 0 →
      mbuf.stHead.iSn = 0 →
      mbuf.stHead.iAckSn = 1 →
      socket.uiListenTpId ≠ 0 →
      FromSocket far uiTpId socket mbuf
  | answer :
      mbuf.stHead.uiPktFlag = tpPktFlagAck ∨ mbuf.stHead.uiPktFlag = tpPktFlagKeepAlive →
      mbuf.stHead.uiDstTpId = socket.uiPeerTpId →
      (socket.uiPeerTpId ≠ 0 → Mutual far uiTpId socket.uiPeerTpId) →
      socket.uiStatus.Settled →
      FromSocket far uiTpId socket mbuf
  | data :
      mbuf.stHead.uiPktFlag = tpPktFlagData →
      mbuf.stHead.uiDstTpId = socket.uiPeerTpId →
      socket.uiPeerTpId ≠ 0 →
      mbuf.stHead.iSn = 1 + BitVec.ofNat 32 mbuf.serial →
      socket.accepted[mbuf.serial]? = some mbuf.data →
      socket.uiStatus.Settled →
      FromSocket far uiTpId socket mbuf

structure SocketOk (far : TpCtrl) (uiTpId : UINT) (socket : TpSocket) : Prop where
  local_eq : socket.uiLocalTpId = uiTpId
  nonzero : uiTpId ≠ 0
  init : socket.uiStatus = .init →
    socket.uiPeerTpId = 0 ∧ socket.iSn = 0 ∧ socket.stSendMbufQue = [] ∧ socket.accepted = [] ∧
      socket.pushed = [] ∧ socket.uiListenTpId = 0
  synSend : socket.uiStatus = .synSend →
    socket.uiPeerTpId = 0 ∧ socket.iSn = 1 ∧
      (∃ syn, socket.stSendMbufQue = [syn] ∧ syn.stHead.iSn = 0) ∧
      socket.accepted = [] ∧ socket.pushed = []
  synRcvd : socket.uiStatus = .synRcvd →
    socket.iSn = 1 ∧ socket.iAckSn = 1 ∧ socket.accepted = [] ∧ socket.pushed = [] ∧
      socket.uiListenTpId ≠ 0
  establish : socket.uiStatus = .establish →
    socket.iSn = 1 + BitVec.ofNat 32 socket.accepted.length ∧ socket.uiPeerTpId ≠ 0 ∧
      Mutual far uiTpId socket.uiPeerTpId
  peer : socket.uiPeerTpId ≠ 0 →
    ∃ peer, far.hSocketNap socket.uiPeerTpId = some peer ∧ peer.uiStatus ≠ .init
  listen : socket.uiListenTpId ≠ 0 →
    socket.uiPeerTpId ≠ 0 ∧ ∃ peer, far.hSocketNap socket.uiPeerTpId = some peer ∧
      peer.uiStatus ≠ .init ∧ peer.uiListenTpId = 0 ∧ peer.uiProtocolId ≠ 0 ∧
      ¬ tpProtoMax < peer.uiProtocolId
  que : ∀ mbuf ∈ socket.stSendMbufQue,
    mbuf.stHead.uiSrcTpId = uiTpId ∧ FromSocket far uiTpId socket mbuf

/-- A packet that was sent tears a connection down or comes from a socket. -/
def SentOk (near far : TpCtrl) (mbuf : Mbuf) : Prop :=
  mbuf.stHead.uiPktFlag = tpPktFlagRst ∨
    ∃ socket, near.hSocketNap mbuf.stHead.uiSrcTpId = some socket ∧
      FromSocket far mbuf.stHead.uiSrcTpId socket mbuf

structure EndOk (near far : TpCtrl) : Prop where
  sockets : ∀ uiTpId socket, near.hSocketNap uiTpId = some socket → SocketOk far uiTpId socket
  sent : ∀ mbuf ∈ near.sent, SentOk near far mbuf
  listeners : ∀ uiProtocolId protocol, near.hProtocolNap uiProtocolId = some protocol →
    protocol.uiLocalTpId ≠ 0

structure Evolves (socket after : TpSocket) : Prop where
  peer : socket.uiPeerTpId ≠ 0 ∨ socket.uiStatus.Settled → after.uiPeerTpId = socket.uiPeerTpId
  listen : after.uiListenTpId = socket.uiListenTpId
  started : socket.uiStatus ≠ .init → after.uiStatus ≠ .init
  settled : socket.uiStatus.Settled → after.uiStatus.Settled
  synRcvd : after.uiStatus = .synRcvd → socket.uiStatus = .synRcvd
  protocol : socket.uiProtocolId ≠ 0 → socket.uiStatus ≠ .init →
    after.uiProtocolId = socket.uiProtocolId
  accepted : socket.accepted <+: after.accepted

/-- Every socket is still there and has evolved. -/
def Grows (ctrl after : TpCtrl) : Prop :=
  ∀ uiTpId socket, ctrl.hSocketNap uiTpId = some socket →
    ∃ later, after.hSocketNap uiTpId = some later ∧ Evolves socket later

theorem Evolves.refl (socket : TpSocket) : Evolves socket socket :=
  ⟨fun _ => rfl, rfl, id, id, id, fun _ _ => rfl, prefix_rfl⟩

theorem Grows.refl (ctrl : TpCtrl) : Grows ctrl ctrl :=
  fun _ socket found => ⟨socket, found, .refl socket⟩

theorem Mutual.grows (grows : Grows far farAfter) {uiPeerTpId : UINT} (nonzero : uiTpId ≠ 0)
    (matched : Mutual far uiTpId uiPeerTpId) : Mutual farAfter uiTpId uiPeerTpId := by
  obtain ⟨peer, found, same⟩ := matched
  obtain ⟨later, foundLater, evolves⟩ := grows uiPeerTpId peer found
  exact ⟨later, foundLater, (evolves.peer (.inl (same ▸ nonzero))).trans same⟩

theorem FromSocket.evolves (fromSocket : FromSocket far uiTpId socket mbuf)
    (nonzero : uiTpId ≠ 0) (grows : Grows far farAfter) (evolves : Evolves socket after) :
    FromSocket farAfter uiTpId after mbuf := by
  cases fromSocket with
  | syn flag dst iSn started listen protocol proper =>
    have kept := evolves.protocol proper started
    exact .syn flag dst iSn (evolves.started started) (evolves.listen.trans listen)
      (protocol.trans kept.symm) (kept ▸ proper)
  | synAck flag dst peer iSn iAckSn listen =>
    have kept := evolves.peer (.inl peer)
    exact .synAck flag (dst.trans kept.symm) (kept ▸ peer) iSn iAckSn (evolves.listen ▸ listen)
  | answer flag dst matched settled =>
    have kept := evolves.peer (.inr settled)
    refine .answer flag (dst.trans kept.symm) (fun peer => ?_) (evolves.settled settled)
    rw [kept] at peer ⊢
    exact (matched peer).grows grows nonzero
  | data flag dst peer iSn stored settled =>
    have kept := evolves.peer (.inl peer)
    refine .data flag (dst.trans kept.symm) (kept ▸ peer) iSn ?_ (evolves.settled settled)
    obtain ⟨_, whole⟩ := evolves.accepted
    rw [← whole, List.getElem?_append_left (List.getElem?_eq_some_iff.mp stored).1]
    exact stored

theorem SocketOk.grows (socketOk : SocketOk far uiTpId socket) (grows : Grows far farAfter) :
    SocketOk farAfter uiTpId socket where
  local_eq := socketOk.local_eq
  nonzero := socketOk.nonzero
  init := socketOk.init
  synSend := socketOk.synSend
  synRcvd := socketOk.synRcvd
  establish established := by
    obtain ⟨iSn, peer, matched⟩ := socketOk.establish established
    exact ⟨iSn, peer, matched.grows grows socketOk.nonzero⟩
  peer nonzero := by
    obtain ⟨peer, found, started⟩ := socketOk.peer nonzero
    obtain ⟨later, foundLater, evolves⟩ := grows _ peer found
    exact ⟨later, foundLater, evolves.started started⟩
  listen listens := by
    obtain ⟨nonzero, peer, found, started, listen, proper, bounded⟩ := socketOk.listen listens
    obtain ⟨later, foundLater, evolves⟩ := grows _ peer found
    have kept := evolves.protocol proper started
    exact ⟨nonzero, later, foundLater, evolves.started started, evolves.listen.trans listen,
      kept ▸ proper, kept ▸ bounded⟩
  que mbuf inside := by
    obtain ⟨src, fromSocket⟩ := socketOk.que mbuf inside
    exact ⟨src, fromSocket.evolves socketOk.nonzero grows (.refl socket)⟩

theorem EndOk.far_grows (endOk : EndOk near far) (grows : Grows far farAfter) :
    EndOk near farAfter where
  sockets uiTpId socket found := (endOk.sockets uiTpId socket found).grows grows
  sent mbuf inside := by
    rcases endOk.sent mbuf inside with rst | ⟨socket, found, fromSocket⟩
    · exact .inl rst
    · exact .inr ⟨socket, found, fromSocket.evolves (endOk.sockets _ socket found).nonzero grows
        (.refl socket)⟩
  listeners := endOk.listeners

theorem Evolves.trans {last : TpSocket} (evolves : Evolves socket after)
    (next : Evolves after last) : Evolves socket last where
  peer either := by
    have kept := evolves.peer either
    refine (next.peer ?_).trans kept
    rcases either with nonzero | settled
    · exact .inl (kept ▸ nonzero)
    · exact .inr (evolves.settled settled)
  listen := next.listen.trans evolves.listen
  started := next.started ∘ evolves.started
  settled := next.settled ∘ evolves.settled
  synRcvd := evolves.synRcvd ∘ next.synRcvd
  protocol proper started := by
    have kept := evolves.protocol proper started
    exact (next.protocol (kept ▸ proper) (evolves.started started)).trans kept
  accepted := evolves.accepted.trans next.accepted

section

variable (fromSocket : FromSocket far uiTpId socket mbuf)

include fromSocket

theorem FromSocket.of_synAck (flag : mbuf.stHead.uiPktFlag = tpPktFlagSyn ||| tpPktFlagAck) :
    mbuf.stHead.uiDstTpId = socket.uiPeerTpId ∧ socket.uiPeerTpId ≠ 0 ∧ mbuf.stHead.iSn = 0 ∧
      mbuf.stHead.iAckSn = 1 ∧ socket.uiListenTpId ≠ 0 := by
  cases fromSocket with
  | syn other => nomatch flag.symm.trans other
  | synAck _ dst peer iSn iAckSn listen => exact ⟨dst, peer, iSn, iAckSn, listen⟩
  | answer other => rcases other with other | other <;> nomatch flag.symm.trans other
  | data other => nomatch flag.symm.trans other

theorem FromSocket.of_answer
    (flag : mbuf.stHead.uiPktFlag = tpPktFlagAck ∨ mbuf.stHead.uiPktFlag = tpPktFlagKeepAlive) :
    mbuf.stHead.uiDstTpId = socket.uiPeerTpId ∧
      (socket.uiPeerTpId ≠ 0 → Mutual far uiTpId socket.uiPeerTpId) ∧ socket.uiStatus.Settled := by
  cases fromSocket with
  | answer _ dst matched settled => exact ⟨dst, matched, settled⟩
  | syn other | synAck other | data other =>
    rcases flag with flag | flag <;> nomatch flag.symm.trans other

theorem FromSocket.of_data (flag : mbuf.stHead.uiPktFlag = tpPktFlagData) :
    mbuf.stHead.uiDstTpId = socket.uiPeerTpId ∧ socket.uiPeerTpId ≠ 0 ∧
      mbuf.stHead.iSn = 1 + BitVec.ofNat 32 mbuf.serial ∧
      socket.accepted[mbuf.serial]? = some mbuf.data ∧ socket.uiStatus.Settled := by
  cases fromSocket with
  | data _ dst peer iSn stored settled => exact ⟨dst, peer, iSn, stored, settled⟩
  | syn other | synAck other => nomatch flag.symm.trans other
  | answer other => rcases other with other | other <;> nomatch flag.symm.trans other

end

structure ArrivesFrom (near far : TpCtrl) (arrived : Option Mbuf) (uiTpId : UINT)
    (mbuf : Mbuf) (origin : TpSocket) : Prop where
  arrives : arrived = some mbuf
  dst : mbuf.stHead.uiDstTpId = uiTpId
  found : far.hSocketNap mbuf.stHead.uiSrcTpId = some origin
  fromSocket : FromSocket near mbuf.stHead.uiSrcTpId origin mbuf

inductive Change (near far : TpCtrl) (arrived : Option Mbuf) (uiTpId : UINT) (socket : TpSocket) :
    TpSocket → Prop where
  | stay : Change near far arrived uiTpId socket socket
  | bind (uiProtocolId : UINT) :
      socket.uiProtocolId = 0 →
      Change near far arrived uiTpId socket { socket with uiProtocolId := uiProtocolId }
  | connect (uiProtocolId : UINT) :
      socket.uiStatus = .init →
      uiProtocolId ≠ 0 →
      Change near far arrived uiTpId socket { socket with
        uiProtocolId := uiProtocolId
        uiStatus := .synSend
        iSn := socket.iSn + 1
        stSendMbufQue := socket.stSendMbufQue ++ [tpPktBuildProtocolPkt
          { socket with uiProtocolId := uiProtocolId, uiStatus := .synSend } tpPktFlagSyn] }
  | send (data : List UCHAR) :
      socket.uiStatus = .establish →
      socket.stSendMbufQue.length < tpSendMbufCount →
      Change near far arrived uiTpId socket { socket with
        accepted := socket.accepted ++ [data]
        iSn := socket.iSn + 1
        stSendMbufQue := socket.stSendMbufQue ++
          [⟨tpPktFillPktHeader socket tpPktFlagData, data, socket.accepted.length⟩] }
  | acked (mbuf : Mbuf) (origin : TpSocket) :
      ArrivesFrom near far arrived uiTpId mbuf origin →
      mbuf.stHead.uiPktFlag = tpPktFlagAck →
      socket.uiStatus.Settled →
      (socket.uiPeerTpId ≠ 0 → socket.uiPeerTpId = mbuf.stHead.uiSrcTpId) →
      Change near far arrived uiTpId socket { socket with
        stSendMbufQue := socket.stSendMbufQue.dropWhile (tpPktIsAcked mbuf.stHead.iAckSn) }
  | connected (mbuf : Mbuf) (origin : TpSocket) :
      ArrivesFrom near far arrived uiTpId mbuf origin →
      mbuf.stHead.uiPktFlag = tpPktFlagSyn ||| tpPktFlagAck →
      socket.uiStatus = .synSend →
      Change near far arrived uiTpId socket { socket with
        uiPeerTpId := mbuf.stHead.uiSrcTpId
        iAckSn := mbuf.stHead.iSn + 1
        uiStatus := .establish
        stSendMbufQue := socket.stSendMbufQue.dropWhile (tpPktIsAcked mbuf.stHead.iAckSn) }
  | refused (mbuf : Mbuf) (origin : TpSocket) :
      ArrivesFrom near far arrived uiTpId mbuf origin →
      mbuf.stHead.uiPktFlag = tpPktFlagSyn ||| tpPktFlagAck →
      socket.uiStatus = .synSend →
      Change near far arrived uiTpId socket { socket with
        uiPeerTpId := mbuf.stHead.uiSrcTpId
        iAckSn := mbuf.stHead.iSn + 1
        uiStatus := .closed }
  | confirmed (mbuf : Mbuf) (origin : TpSocket) :
      ArrivesFrom near far arrived uiTpId mbuf origin →
      mbuf.stHead.uiPktFlag = tpPktFlagAck →
      socket.uiStatus = .synRcvd →
      socket.uiPeerTpId = mbuf.stHead.uiSrcTpId →
      Change near far arrived uiTpId socket { socket with
        uiStatus := .establish
        stSendMbufQue := socket.stSendMbufQue.dropWhile (tpPktIsAcked mbuf.stHead.iAckSn) }
  | again (mbuf : Mbuf) (origin : TpSocket) :
      ArrivesFrom near far arrived uiTpId mbuf origin →
      mbuf.stHead.uiPktFlag = tpPktFlagSyn ||| tpPktFlagAck →
      socket.uiStatus.Settled →
      (socket.uiPeerTpId ≠ 0 → socket.uiPeerTpId = mbuf.stHead.uiSrcTpId) →
      Change near far arrived uiTpId socket { socket with
        iAckSn := mbuf.stHead.iSn + 1
        stSendMbufQue := socket.stSendMbufQue.dropWhile (tpPktIsAcked mbuf.stHead.iAckSn) }
  | push (mbuf : Mbuf) (origin : TpSocket) :
      ArrivesFrom near far arrived uiTpId mbuf origin →
      mbuf.stHead.uiPktFlag = tpPktFlagData →
      socket.uiStatus = .establish →
      socket.uiPeerTpId = mbuf.stHead.uiSrcTpId →
      mbuf.stHead.iSn = socket.iAckSn →
      Change near far arrived uiTpId socket { socket with
        iAckSn := socket.iAckSn + 1
        pushed := socket.pushed ++ [mbuf.data] }

theorem Change.evolves (change : Change near far arrived uiTpId socket after)
    (socketOk : SocketOk far uiTpId socket) : Evolves socket after := by
  cases change with
  | stay => exact .refl socket
  | bind _ unbound =>
    exact { Evolves.refl socket with protocol := fun bound _ => absurd unbound bound }
  | connect _ isInit =>
    exact { Evolves.refl socket with
      started := fun _ => nofun, settled := fun settled => absurd isInit settled.1
      synRcvd := nofun, protocol := fun _ started => absurd isInit started }
  | send => exact { Evolves.refl socket with accepted := prefix_append _ _ }
  | acked => exact { Evolves.refl socket with }
  | connected _ _ _ _ sending | refused _ _ _ _ sending =>
    obtain ⟨noPeer, -⟩ := socketOk.synSend sending
    exact { Evolves.refl socket with
      peer := fun either => either.elim (absurd noPeer) fun settled => absurd sending settled.2.1
      started := fun _ => nofun, settled := fun settled => absurd sending settled.2.1
      synRcvd := nofun }
  | confirmed _ _ _ _ rcvd =>
    exact { Evolves.refl socket with
      started := fun _ => nofun, settled := fun settled => absurd rcvd settled.2.2
      synRcvd := fun _ => rcvd }
  | again => exact { Evolves.refl socket with }
  | push => exact { Evolves.refl socket with }

theorem que_dropWhile {test : Mbuf → Bool} (grown : ∀ mbuf ∈ socket.stSendMbufQue,
      mbuf.stHead.uiSrcTpId = uiTpId ∧ FromSocket far uiTpId after mbuf) :
    ∀ mbuf ∈ socket.stSendMbufQue.dropWhile test,
      mbuf.stHead.uiSrcTpId = uiTpId ∧ FromSocket far uiTpId after mbuf :=
  fun mbuf inside => grown mbuf ((dropWhile_suffix test).subset inside)

theorem ArrivesFrom.connects {mbuf : Mbuf} {origin : TpSocket} (farOk : EndOk far near)
    (arrives : ArrivesFrom near far arrived uiTpId mbuf origin)
    (flag : mbuf.stHead.uiPktFlag = tpPktFlagSyn ||| tpPktFlagAck) :
    mbuf.stHead.uiSrcTpId ≠ 0 ∧ Mutual far uiTpId mbuf.stHead.uiSrcTpId ∧
      ∃ peer, far.hSocketNap mbuf.stHead.uiSrcTpId = some peer ∧ peer.uiStatus ≠ .init := by
  obtain ⟨dst, -, -, -, listen⟩ := arrives.fromSocket.of_synAck flag
  have originOk := farOk.sockets _ origin arrives.found
  refine ⟨originOk.nonzero, ⟨origin, arrives.found, dst.symm.trans arrives.dst⟩, origin,
    arrives.found, fun isInit => ?_⟩
  exact listen (originOk.init isInit).2.2.2.2.2

theorem Change.socketOk (change : Change near far arrived uiTpId socket after)
    (socketOk : SocketOk far uiTpId socket) (farOk : EndOk far near) :
    SocketOk far uiTpId after := by
  have evolves := change.evolves socketOk
  have grown : ∀ mbuf ∈ socket.stSendMbufQue,
      mbuf.stHead.uiSrcTpId = uiTpId ∧ FromSocket far uiTpId after mbuf := by
    intro mbuf inside
    obtain ⟨src, fromSocket⟩ := socketOk.que mbuf inside
    exact ⟨src, fromSocket.evolves socketOk.nonzero (.refl far) evolves⟩
  cases change with
  | stay => exact socketOk
  | bind => exact { socketOk with que := grown }
  | connect _ isInit proper =>
    obtain ⟨noPeer, iSn, empty, accepted, pushed, listen⟩ := socketOk.init isInit
    refine { socketOk with
      init := nofun, synSend := fun _ => ?_, synRcvd := nofun, establish := nofun, que := ?_ }
    · exact ⟨noPeer, by rw [iSn]; rfl, ⟨_, by rw [empty]; rfl, iSn⟩, accepted, pushed⟩
    intro mbuf inside
    rw [empty, nil_append] at inside
    rw [mem_singleton.mp inside]
    exact ⟨socketOk.local_eq, .syn rfl noPeer iSn nofun listen rfl proper⟩
  | send data established =>
    obtain ⟨iSn, peer, matched⟩ := socketOk.establish established
    have settled : socket.uiStatus.Settled := by rw [established]; decide
    refine { socketOk with
      init := fun isInit => absurd isInit settled.1
      synSend := fun sending => absurd sending settled.2.1
      synRcvd := fun rcvd => absurd rcvd settled.2.2
      establish := fun _ => ?_, que := ?_ }
    · refine ⟨?_, peer, matched⟩
      simp only [iSn, length_append, length_singleton, BitVec.ofNat_add, BitVec.add_assoc]
      rfl
    intro mbuf inside
    rcases mem_append.mp inside with old | new
    · exact grown mbuf old
    rw [mem_singleton.mp new]
    refine ⟨socketOk.local_eq, .data rfl rfl peer iSn ?_ settled⟩
    exact getElem?_concat_length
  | acked _ _ _ _ settled =>
    exact { socketOk with
      init := fun isInit => absurd isInit settled.1
      synSend := fun sending => absurd sending settled.2.1
      que := que_dropWhile grown }
  | connected _ _ arrives flag sending =>
    obtain ⟨noPeer, iSn, -, accepted, -⟩ := socketOk.synSend sending
    obtain ⟨nonzero, matched, known⟩ := arrives.connects farOk flag
    refine { socketOk with
      init := nofun, synSend := nofun, synRcvd := nofun
      establish := fun _ => ⟨?_, nonzero, matched⟩, peer := fun _ => known
      listen := fun listens => absurd noPeer (socketOk.listen listens).1
      que := que_dropWhile grown }
    simp only [iSn, accepted]
    rfl
  | refused _ _ arrives flag sending =>
    obtain ⟨noPeer, -⟩ := socketOk.synSend sending
    obtain ⟨-, -, known⟩ := arrives.connects farOk flag
    exact { socketOk with
      init := nofun, synSend := nofun, synRcvd := nofun, establish := nofun
      peer := fun _ => known, que := grown
      listen := fun listens => absurd noPeer (socketOk.listen listens).1 }
  | confirmed _ origin arrives flag rcvd peer =>
    obtain ⟨iSn, -, accepted, -, listens⟩ := socketOk.synRcvd rcvd
    obtain ⟨dst, -, -⟩ := arrives.fromSocket.of_answer (.inl flag)
    refine { socketOk with
      init := nofun, synSend := nofun, synRcvd := nofun, establish := fun _ => ?_
      que := que_dropWhile grown }
    refine ⟨?_, (socketOk.listen listens).1, origin, ?_, dst.symm.trans arrives.dst⟩
    · simp only [iSn, accepted]
      rfl
    · rw [peer]
      exact arrives.found
  | again _ _ _ _ settled =>
    exact { socketOk with
      init := fun isInit => absurd isInit settled.1
      synSend := fun sending => absurd sending settled.2.1
      synRcvd := fun rcvd => absurd rcvd settled.2.2, que := que_dropWhile grown }
  | push _ _ _ _ established =>
    have settled : socket.uiStatus.Settled := by rw [established]; decide
    exact { socketOk with
      init := fun isInit => absurd isInit settled.1
      synSend := fun sending => absurd sending settled.2.1
      synRcvd := fun rcvd => absurd rcvd settled.2.2, que := grown }

theorem settled_closed : TpStatus.closed.Settled := by decide

theorem settled_establish : TpStatus.establish.Settled := by decide

theorem MayClose.evolves (closes : MayClose socket after) : Evolves socket after := by
  rcases closes with rfl | rfl
  · exact .refl _
  exact { Evolves.refl socket with
    started := fun _ => nofun
    settled := fun _ => settled_closed
    synRcvd := nofun }

theorem MayClose.socketOk (closes : MayClose socket after) (socketOk : SocketOk far uiTpId socket) :
    SocketOk far uiTpId after := by
  have evolves := closes.evolves
  rcases closes with rfl | rfl
  · exact socketOk
  refine { socketOk with
    init := nofun, synSend := nofun, synRcvd := nofun, establish := nofun, que := ?_ }
  intro mbuf inside
  obtain ⟨src, fromSocket⟩ := socketOk.que mbuf inside
  exact ⟨src, fromSocket.evolves socketOk.nonzero (.refl far) evolves⟩

theorem FromSocket.of_core (same : socket.core = after.core)
    (fromSocket : FromSocket far uiTpId after mbuf) : FromSocket far uiTpId socket mbuf := by
  cases socket
  cases after
  cases same
  cases fromSocket with
  | syn flag dst iSn started listen protocol proper =>
    exact .syn flag dst iSn started listen protocol proper
  | synAck flag dst peer iSn iAckSn listen => exact .synAck flag dst peer iSn iAckSn listen
  | answer flag dst matched settled => exact .answer flag dst matched settled
  | data flag dst peer iSn stored settled => exact .data flag dst peer iSn stored settled

theorem Evolves.of_core {last : TpSocket} (same : last.core = after.core)
    (evolves : Evolves socket after) : Evolves socket last := by
  have core : Evolves socket after.core := { evolves with }
  rw [← same] at core
  exact { core with }

theorem SocketOk.of_core (same : socket.core = after.core) (socketOk : SocketOk far uiTpId after) :
    SocketOk far uiTpId socket := by
  have core : SocketOk far uiTpId after.core := { socketOk with
    que := fun mbuf inside =>
      have queued := socketOk.que mbuf inside
      ⟨queued.1, @FromSocket.of_core far uiTpId after.core after mbuf rfl queued.2⟩ }
  rw [← same] at core
  exact { core with
    que := fun mbuf inside =>
      have queued := core.que mbuf inside
      ⟨queued.1, @FromSocket.of_core far uiTpId socket socket.core mbuf rfl queued.2⟩ }

structure Opened (near far : TpCtrl) (uiTpId : UINT) (socket : TpSocket) : Prop where
  absent : near.hSocketNap uiTpId = none
  socketOk : SocketOk far uiTpId socket
  unsettled : socket.uiStatus ≠ .establish
  unread : socket.pushed = []

structure Moves (near far : TpCtrl) (arrived : Option Mbuf) (after : TpCtrl) : Prop where
  sockets : ∀ uiTpId socket, after.hSocketNap uiTpId = some socket →
    (∃ old mid last, near.hSocketNap uiTpId = some old ∧ Change near far arrived uiTpId old mid ∧
      MayClose mid last ∧ socket.core = last.core) ∨ Opened near far uiTpId socket
  kept : ∀ uiTpId, (near.hSocketNap uiTpId).isSome → (after.hSocketNap uiTpId).isSome
  sent : ∀ mbuf ∈ after.sent, mbuf ∈ near.sent ∨ SentOk after far mbuf
  listeners : ∀ uiProtocolId protocol, after.hProtocolNap uiProtocolId = some protocol →
    protocol.uiLocalTpId ≠ 0

theorem Moves.grows (moves : Moves near far arrived nearAfter) (nearOk : EndOk near far) :
    Grows near nearAfter := by
  intro uiTpId socket found
  obtain ⟨later, foundLater⟩ := Option.isSome_iff_exists.mp
    (moves.kept uiTpId (Option.isSome_iff_exists.mpr ⟨socket, found⟩))
  refine ⟨later, foundLater, ?_⟩
  rcases moves.sockets uiTpId later foundLater with ⟨_, _, _, isOld, change, closes, same⟩ | opened
  · rw [found] at isOld
    cases isOld
    have socketOk := nearOk.sockets uiTpId socket found
    exact ((change.evolves socketOk).trans closes.evolves).of_core same
  · rw [opened.absent] at found
    cases found

theorem Moves.endOk (moves : Moves near far arrived nearAfter) (nearOk : EndOk near far)
    (farOk : EndOk far near) : EndOk nearAfter far where
  sockets uiTpId socket found := by
    rcases moves.sockets uiTpId socket found with ⟨old, _, _, isOld, change, closes, same⟩ | opened
    · have socketOk := nearOk.sockets uiTpId old isOld
      exact (closes.socketOk (change.socketOk socketOk farOk)).of_core same
    · exact opened.socketOk
  sent mbuf inside := by
    rcases moves.sent mbuf inside with old | new
    · rcases nearOk.sent mbuf old with rst | ⟨socket, found, fromSocket⟩
      · exact .inl rst
      obtain ⟨later, foundLater, evolves⟩ := moves.grows nearOk _ socket found
      exact .inr ⟨later, foundLater, fromSocket.evolves (nearOk.sockets _ socket found).nonzero
        (.refl far) evolves⟩
    · exact new
  listeners := moves.listeners

theorem Moves.of_same (nearOk : EndOk near far)
    (sockets : ∀ uiTpId socket, nearAfter.hSocketNap uiTpId = some socket →
      ∃ old, near.hSocketNap uiTpId = some old ∧ socket.core = old.core)
    (kept : ∀ uiTpId, (near.hSocketNap uiTpId).isSome → (nearAfter.hSocketNap uiTpId).isSome)
    (sent : ∀ mbuf ∈ nearAfter.sent, mbuf ∈ near.sent ∨ SentOk nearAfter far mbuf)
    (listeners : ListenersKept near nearAfter) : Moves near far arrived nearAfter where
  sockets uiTpId socket found := by
    obtain ⟨old, isOld, same⟩ := sockets uiTpId socket found
    exact .inl ⟨old, old, old, isOld, .stay, .inl rfl, same⟩
  kept := kept
  sent := sent
  listeners uiProtocolId protocol found := by
    obtain ⟨old, foundOld, same⟩ := listeners uiProtocolId protocol found
    exact same ▸ nearOk.listeners uiProtocolId old foundOld

theorem Moves.refl (nearOk : EndOk near far) : Moves near far arrived near :=
  .of_same nearOk (fun _ socket found => ⟨socket, found, rfl⟩) (fun _ => id)
    (fun _ inside => .inl inside) (.refl near)

theorem Moves.of_effect (nearOk : EndOk near far) (farOk : EndOk far near)
    (found : near.hSocketNap uiTpId = some socket) {start work : TpWork} {mid last : TpSocket}
    {sent : List Mbuf} (begins : start.ctrl = near) (effect : Effect start work last sent)
    (change : Change near far arrived uiTpId socket mid) (closes : MayClose mid last)
    (handed : ∀ mbuf ∈ sent, mbuf.stHead.uiPktFlag = tpPktFlagRst ∨
      mbuf.stHead.uiSrcTpId = uiTpId ∧ FromSocket far uiTpId last mbuf) :
    Moves near far arrived work.store := by
  obtain ⟨core, sockets, listeners, sentNow⟩ := effect
  have lastOk := closes.socketOk (change.socketOk (nearOk.sockets uiTpId socket found) farOk)
  have workOk := lastOk.of_core core
  have stored : work.store.hSocketNap = update near.hSocketNap uiTpId (some work.socket) := by
    simp [TpWork.store, TpCtrl.setSocket, workOk.local_eq, sockets, begins]
  constructor
  · intro other socketAfter foundAfter
    rw [stored, update_apply] at foundAfter
    left
    split at foundAfter
    · next same =>
      cases foundAfter
      exact ⟨socket, mid, last, same ▸ found, same ▸ change, closes, core⟩
    · exact ⟨socketAfter, socketAfter, socketAfter, foundAfter, .stay, .inl rfl, rfl⟩
  · intro other there
    rw [stored, update_apply]
    split
    · rfl
    · exact there
  · intro mbuf inside
    simp only [TpWork.store, TpCtrl.setSocket, sentNow, begins] at inside
    rcases mem_append.mp inside with old | new
    · exact .inl old
    right
    rcases handed mbuf new with rst | ⟨src, fromSocket⟩
    · exact .inl rst
    refine .inr ⟨work.socket, ?_, ?_⟩
    · rw [stored, src, update_self]
    · rw [src]
      exact fromSocket.of_core core
  · intro uiProtocolId protocol foundAfter
    obtain ⟨old, foundOld, same⟩ := listeners uiProtocolId protocol foundAfter
    rw [begins] at foundOld
    exact same ▸ nearOk.listeners uiProtocolId old foundOld

end MyCode.Tp
