import MyCode.Tp.Rejection

/-!
# Resets for the packets of a socket

A peer that does not know a connection answers its packets with resets.  The
numbers of a reset come from the packet, and are compared with those that the
socket has when the reset arrives.
-/

namespace MyCode.Tp

open KeepAlive Option BitVec

variable {ctrl : TpCtrl} {outcome : TpOutcome} {pkt : TpPktHead} {socket : TpSocket}
  {work : TpWork} {uiTpId : UINT} {mbuf : Mbuf}

/-- The packets that a socket hands over: those built of it, and the head of its queue. -/
inductive JustSent (socket : TpSocket) : Mbuf → Prop where
  | built {uiPktFlag : UINT} :
      uiPktFlag = tpPktFlagAck ∨ uiPktFlag = tpPktFlagKeepAlive →
      JustSent socket (tpPktBuildProtocolPkt socket uiPktFlag)
  | queued {mbuf : Mbuf} :
      socket.stSendMbufQue.head? = some mbuf →
      JustSent socket mbuf

/-- The reset for a packet closes the socket of an id. -/
def ResetCloses (outcome : TpOutcome) (ctrl : TpCtrl) (uiTpId : UINT) (mbuf : Mbuf) : Prop :=
  ((tpPktInput outcome ctrl (tpPktBuildRstPkt mbuf.stHead)).1.hSocketNap uiTpId).map
    TpSocket.uiStatus = some .closed

/-- A reset for a packet of a socket has the numbers of the socket. -/
structure Resettable (socket : TpSocket) (mbuf : Mbuf) : Prop where
  answered : socket.uiStatus ≠ .synSend
  protocol : ¬ (socket.uiProtocolId = 0 ∨ tpProtoMax < socket.uiProtocolId)
  last : tpPktIsPktTakeSn mbuf.stHead.uiPktFlag = true →
    socket.stSendMbufQue.length = 1 ∧ mbuf.stHead.iAckSn = socket.iAckSn

theorem tpPktProtocolPktIn_no_receiver (none : tpPktReceiver ctrl pkt = none)
    (addressed : pkt.uiDstTpId ≠ 0) :
    (tpPktProtocolPktIn outcome ctrl pkt).1.hSocketNap = ctrl.hSocketNap := by
  unfold tpPktProtocolPktIn
  unfold tpPktReceiver at none
  split
  · rfl
  next supported =>
  rw [if_neg supported, if_neg addressed] at none
  rw [none]
  simp only
  split <;> rfl

theorem tpPktRstInput_status (opened : work.socket.uiStatus ≠ .closed) :
    (tpPktRstInput pkt work).socket.uiLocalTpId = work.socket.uiLocalTpId ∧
      ((tpPktRstInput pkt work).socket.uiStatus = .closed ↔
        pkt.iAckSn = work.socket.iSn ∧ pkt.iSn = work.socket.iAckSn) := by
  unfold tpPktRstInput
  split
  · next fits =>
    have effect := tpSocketAbort_effect work
    refine ⟨?_, iff_of_true (core_status effect.core) ⟨fits.1, fits.2.1⟩⟩
    rw [core_localTpId effect.core]
  · next misfits =>
    exact ⟨rfl, iff_of_false opened fun both => misfits ⟨both.1, both.2, opened⟩⟩

theorem rst_closes_iff (found : ctrl.hSocketNap pkt.uiDstTpId = some socket)
    (localId : socket.uiLocalTpId = pkt.uiDstTpId) (addressed : pkt.uiDstTpId ≠ 0)
    (flag : pkt.uiPktFlag = tpPktFlagRst) (opened : socket.uiStatus ≠ .closed) :
    ((tpPktProtocolPktIn outcome ctrl pkt).1.hSocketNap pkt.uiDstTpId).map TpSocket.uiStatus =
        some .closed ↔
      tpPktReceiver ctrl pkt = some socket ∧ socket.uiStatus ≠ .synSend ∧
        pkt.iAckSn = socket.iSn ∧ pkt.iSn = socket.iAckSn := by
  have unclosed :=  fun same => opened (some.inj same)
  cases reaches : tpPktReceiver ctrl pkt with
  | none =>
    rw [tpPktProtocolPktIn_no_receiver reaches addressed, found]
    exact iff_of_false unclosed fun both => nomatch both.1
  | some other =>
    have same := some.inj ((tpPktReceiver_found reaches).symm.trans found)
    subst same
    have noAck : hasFlag pkt.uiPktFlag tpPktFlagAck = false := by
      rw [flag]
      decide
    rw [tpPktProtocolPktIn_receiver outcome reaches]
    by_cases sending : other.uiStatus = .synSend
    · rw [if_pos ⟨sending, noAck⟩]
      simp only [TpCtrl.setSocket, tpPktResetKeepAlive, localId, Function.update_self]
      exact iff_of_false unclosed fun both => both.2.1 sending
    obtain ⟨sameId, status⟩ := @tpPktRstInput_status pkt ⟨ctrl, { tpPktResetKeepAlive other with
      uiPeerTpId := if other.uiStatus = .synSend then pkt.uiSrcTpId else other.uiPeerTpId }⟩ opened
    rw [if_neg fun both => sending both.1, tpPktFlagsIn_rst flag, TpWork.store, TpCtrl.setSocket]
    simp only
    rw [sameId.trans localId, Function.update_self, map_some, some.injEq, status]
    exact ⟨fun numbers => ⟨trivial, sending, numbers⟩, fun both => both.2.2⟩

structure FromBacklog (uiTpId : UINT) (socket : TpSocket) (mbuf : Mbuf) : Prop where
  src : mbuf.stHead.uiSrcTpId = uiTpId
  protocol : mbuf.stHead.uiProtocolId = socket.uiProtocolId
  dst : socket.uiStatus = .synRcvd ∨ socket.uiStatus = .establish →
    mbuf.stHead.uiDstTpId = socket.uiPeerTpId
  numbers :
    (tpPktBuildRstPkt mbuf.stHead).stHead.iAckSn = socket.iSn ∧ mbuf.stHead.iAckSn = socket.iAckSn ↔
      (tpPktIsPktTakeSn mbuf.stHead.uiPktFlag = true →
        socket.stSendMbufQue.length = 1 ∧ mbuf.stHead.iAckSn = socket.iAckSn)

theorem number_last_iff {iSn last : UINT} {count : Nat}
    (numbered : iSn + BitVec.ofNat 32 count = last)
    (bounded : count ≤ tpSendMbufCount) : iSn + 1 = last ↔ count = 1 := by
  rw [← numbered, BitVec.add_right_inj]
  constructor
  · intro same
    have values := congrArg BitVec.toNat same
    rw [tpSendMbufCount] at bounded
    simp only [ofNat_eq_ofNat, toNat_ofNat] at values
    omega
  · rintro rfl
    rfl

theorem JustSent.fromBacklog (justSent : JustSent socket mbuf) (backlog : Backlog uiTpId socket)
    (localId : socket.uiLocalTpId = uiTpId) : FromBacklog uiTpId socket mbuf := by
  cases justSent with
  | @built uiPktFlag flag =>
    have takesNone : tpPktIsPktTakeSn uiPktFlag = false := by
      obtain rfl | rfl := flag <;> decide
    change tpPktIsPktTakeSn (tpPktBuildProtocolPkt socket uiPktFlag).stHead.uiPktFlag = false
      at takesNone
    refine ⟨localId, rfl, fun _ => rfl, ?_⟩
    rw [tpPktBuildRstPkt, takesNone]
    exact iff_of_true ⟨rfl, rfl⟩ nofun
  | queued first =>
    obtain ⟨_, shape⟩ := List.head?_eq_some_iff.mp first
    have inside := List.mem_of_head? first
    obtain ⟨src, protocol, takes⟩ := backlog.heads mbuf inside
    refine ⟨src, protocol, fun either => backlog.peers either mbuf inside, ?_⟩
    have numbered := backlog.numbers 0 mbuf (by rw [shape]; rfl)
    rw [Nat.sub_zero] at numbered
    rw [tpPktBuildRstPkt, takes]
    simp only [if_true, forall_const]
    rw [number_last_iff numbered backlog.bounded]

theorem ResetCloses.iff_receiver (found : ctrl.hSocketNap uiTpId = some socket)
    (localId : socket.uiLocalTpId = uiTpId) (nonzero : uiTpId ≠ 0)
    (src : mbuf.stHead.uiSrcTpId = uiTpId) (opened : socket.uiStatus ≠ .closed) :
    ResetCloses outcome ctrl uiTpId mbuf ↔
      tpPktReceiver ctrl (tpPktBuildRstPkt mbuf.stHead).stHead = some socket ∧
        socket.uiStatus ≠ .synSend ∧ (tpPktBuildRstPkt mbuf.stHead).stHead.iAckSn = socket.iSn ∧
        mbuf.stHead.iAckSn = socket.iAckSn := by
  subst src
  have input : tpPktInput outcome ctrl (tpPktBuildRstPkt mbuf.stHead) =
      tpPktProtocolPktIn outcome ctrl (tpPktBuildRstPkt mbuf.stHead).stHead :=
    if_pos (show (!hasFlag tpPktFlagRst tpPktFlagData) = true by decide)
  rw [ResetCloses, input]
  exact @rst_closes_iff ctrl outcome (tpPktBuildRstPkt mbuf.stHead).stHead socket found localId
    nonzero rfl opened

/-- Resets for what a socket has just sent close it exactly where they have its numbers. -/
theorem tpPktRst_closes_iff (reached : tp.Reachable ctrl)
    (found : ctrl.hSocketNap uiTpId = some socket)
    (opened : socket.uiStatus = .synSend ∨ socket.uiStatus = .synRcvd ∨ socket.uiStatus = .establish)
    (justSent : JustSent socket mbuf) (outcome : TpOutcome) :
    ResetCloses outcome ctrl uiTpId mbuf ↔ Resettable socket mbuf := by
  obtain ⟨localId, nonzero, backlog⟩ := tp_backlogsOk reached uiTpId socket found
  obtain ⟨src, protocol, dst, numbers⟩ := justSent.fromBacklog backlog localId
  have unclosed : socket.uiStatus ≠ .closed := by
    obtain same | same | same := opened <;> rw [same] <;> exact nofun
  rw [ResetCloses.iff_receiver found localId nonzero src unclosed, numbers]
  have receiver : socket.uiStatus ≠ .synSend →
      (tpPktReceiver ctrl (tpPktBuildRstPkt mbuf.stHead).stHead = some socket ↔
        ¬ (socket.uiProtocolId = 0 ∨ tpProtoMax < socket.uiProtocolId)) := by
    intro answered
    have peer := (dst (opened.resolve_left answered)).symm
    have finds : tpPktFindSocket ctrl (tpPktBuildRstPkt mbuf.stHead).stHead = some socket := by
      simp only [tpPktFindSocket, tpSocketFindSocket, tpPktBuildRstPkt, src, found, peer, ne_eq,
        not_true_eq_false, and_false, if_false]
    rw [tpPktReceiver, show (tpPktBuildRstPkt mbuf.stHead).stHead.uiProtocolId = socket.uiProtocolId
      from protocol, show (tpPktBuildRstPkt mbuf.stHead).stHead.uiDstTpId = uiTpId from src,
      if_neg nonzero, finds]
    split
    · next unsupported => exact iff_of_false (nofun) (not_not.mpr unsupported)
    · next supported => exact iff_of_true rfl supported
  constructor
  · rintro ⟨reaches, answered, last⟩
    exact ⟨answered, (receiver answered).mp reaches, last⟩
  · rintro ⟨answered, supported, last⟩
    exact ⟨(receiver answered).mpr supported, answered, last⟩

/-- The packet that a listener answers a connect with. -/
theorem tpPktRst_closes_iff_listening :
    ∃ ctrl socket mbuf, tp.Reachable ctrl ∧ ctrl.hSocketNap 0x80000001 = some socket ∧
      socket.uiStatus = .synRcvd ∧ JustSent socket mbuf ∧
      ResetCloses (tpOutcomeOk none) ctrl 0x80000001 mbuf := by
  have reached := @tp_reachable tpListening (by decide +kernel)
  obtain ⟨socket, found, status, protocol, count, acks⟩ : ∃ socket ∈ (tpListening.foldl tpNext
      tpCreate).hSocketNap 0x80000001, socket.uiStatus = .synRcvd ∧ socket.uiProtocolId = 5 ∧
      socket.stSendMbufQue.length = 1 ∧
      (socket.stSendMbufQue.head?.map fun mbuf => mbuf.stHead.iAckSn) = some socket.iAckSn := by
    decide +kernel
  obtain ⟨mbuf, first, same⟩ := map_eq_some_iff.mp acks
  refine ⟨_, socket, mbuf, reached, found, status, .queued first,
    (tpPktRst_closes_iff reached found (.inr (.inl status)) (.queued first) _).mpr ⟨?_, ?_, ?_⟩⟩
  · rw [status]
    exact nofun
  · rw [protocol]
    decide
  · exact fun _ => ⟨count, same⟩

/-- The reset for the packet of a connect is not accepted. -/
theorem tpPktRst_connecting :
    ¬ ∀ ctrl uiTpId socket mbuf outcome, tp.Reachable ctrl →
      ctrl.hSocketNap uiTpId = some socket →
      (socket.uiStatus = .synSend ∨ socket.uiStatus = .synRcvd ∨ socket.uiStatus = .establish) →
      JustSent socket mbuf → ResetCloses outcome ctrl uiTpId mbuf := by
  intro holds
  have reached := @tp_reachable tpConnecting (by decide +kernel)
  obtain ⟨socket, found, status, started⟩ : ∃ socket ∈ (tpConnecting.foldl tpNext
      tpCreate).hSocketNap 0x80000000, socket.uiStatus = .synSend ∧
      socket.stSendMbufQue.head? = some ⟨⟨5, 0, 0x80000000, 0, 0, tpPktFlagSyn⟩, [], 0⟩ := by
    decide +kernel
  have closes := holds _ 0x80000000 socket _ (tpOutcomeOk none) reached found (.inl status)
    (.queued started)
  rw [ResetCloses] at closes
  exact absurd closes (by decide +kernel)

end MyCode.Tp
