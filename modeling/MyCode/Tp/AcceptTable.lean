import MyCode.Tp.Instance
import MyCode.Lib.Slots

/-!
# The table of a listener

The sockets of connects that nobody has accepted stand in the table of their
listener.  Most functions leave the table and what it says of a socket alone;
an abort takes the socket out.
-/

namespace MyCode.Tp

open Lib KeepAlive Function List

variable {ctrl ctrlAfter : TpCtrl} {uiTpId uiProtocolId : UINT} {socket after : TpSocket}
  {work workAfter : TpWork} {outcome : TpOutcome} {pkt : TpPktHead}

def TpSocket.accepting (socket : TpSocket) : Bool :=
  hasFlag socket.uiFlag tpSocketFlagAccepting

structure TableOk (ctrl : TpCtrl) (uiProtocolId : UINT) (protocol : TpProtocol) : Prop where
  nonzero : uiProtocolId ≠ 0
  listener : ∃ listener, ctrl.hSocketNap protocol.uiLocalTpId = some listener ∧
    listener.eType = .protocol ∧ listener.uiProtocolId = uiProtocolId
  size : protocol.astAcceptting.length = tpProtocolMaxAcceptNum
  count : protocol.uiAccepttingNum = BitVec.ofNat 32 (usedSlots protocol.astAcceptting)
  listens : ∀ uiTpId, some uiTpId ∈ protocol.astAcceptting →
    hasFlag protocol.uiFlag tpProtocolFlagListen = true
  live : ∀ uiTpId, some uiTpId ∈ protocol.astAcceptting →
    ∃ socket, ctrl.hSocketNap uiTpId = some socket ∧ socket.accepting = true ∧
      socket.uiListenTpId = protocol.uiLocalTpId ∧ socket.uiProtocolId = uiProtocolId
  unique : DistinctSlots protocol.astAcceptting

/-- The tables of a context and the sockets that stand in them. -/
structure AcceptOk (ctrl : TpCtrl) : Prop where
  tables : ∀ uiProtocolId protocol, ctrl.hProtocolNap uiProtocolId = some protocol →
    TableOk ctrl uiProtocolId protocol
  local_eq : ∀ uiTpId socket, ctrl.hSocketNap uiTpId = some socket →
    socket.uiLocalTpId = uiTpId ∧ uiTpId ≠ 0
  accepting : ∀ uiTpId socket, ctrl.hSocketNap uiTpId = some socket → socket.accepting = true →
    socket.eType = .conn ∧ (socket.uiStatus = .synRcvd ∨ socket.uiStatus = .establish) ∧
      ∃ protocol, ctrl.hProtocolNap socket.uiProtocolId = some protocol ∧
        some uiTpId ∈ protocol.astAcceptting
  synRcvd : ∀ uiTpId socket, ctrl.hSocketNap uiTpId = some socket →
    socket.uiStatus = .synRcvd → socket.accepting = true

structure SameRole (socket after : TpSocket) : Prop where
  local_eq : after.uiLocalTpId = socket.uiLocalTpId
  eType : after.eType = socket.eType
  accepting : after.accepting = socket.accepting
  listen : after.uiListenTpId = socket.uiListenTpId
  protocol : socket.eType = .protocol ∨ socket.accepting = true →
    after.uiProtocolId = socket.uiProtocolId
  synRcvd : after.uiStatus = .synRcvd → socket.uiStatus = .synRcvd
  pending : socket.accepting = true → socket.uiStatus = .synRcvd ∨ socket.uiStatus = .establish →
    after.uiStatus = .synRcvd ∨ after.uiStatus = .establish

theorem SameRole.refl (socket : TpSocket) : SameRole socket socket :=
  ⟨rfl, rfl, rfl, rfl, fun _ => rfl, id, fun _ => id⟩

theorem SameRole.closed (free : socket.accepting = false) :
    SameRole socket { socket with uiStatus := .closed } :=
  { SameRole.refl socket with
    synRcvd := nofun
    pending := fun placed => absurd (free.symm.trans placed) nofun }

theorem SameRole.establish (socket : TpSocket) :
    SameRole socket { socket with uiStatus := .establish } :=
  { SameRole.refl socket with
    synRcvd := nofun
    pending := fun _ _ => .inr rfl }

theorem AcceptOk.of_same (ok : AcceptOk ctrl)
    (protocols : ctrlAfter.hProtocolNap = ctrl.hProtocolNap)
    (backward : ∀ uiTpId socket, ctrlAfter.hSocketNap uiTpId = some socket →
      ∃ old, ctrl.hSocketNap uiTpId = some old ∧ SameRole old socket)
    (forward : ∀ uiTpId socket, ctrl.hSocketNap uiTpId = some socket →
      ∃ later, ctrlAfter.hSocketNap uiTpId = some later ∧ SameRole socket later) :
    AcceptOk ctrlAfter where
  tables uiProtocolId protocol found := by
    rw [protocols] at found
    have table := ok.tables uiProtocolId protocol found
    obtain ⟨listener, isListener, eType, bound⟩ := table.listener
    obtain ⟨later, isLater, role⟩ := forward _ listener isListener
    refine { table with
      listener := ⟨later, isLater, role.eType.trans eType, (role.protocol (.inl eType)).trans bound⟩
      live := fun uiTpId placed => ?_ }
    obtain ⟨socket, isSocket, accepting, parent, same⟩ := table.live uiTpId placed
    obtain ⟨later, isLater, role⟩ := forward _ socket isSocket
    exact ⟨later, isLater, role.accepting.trans accepting, role.listen.trans parent,
      (role.protocol (.inr accepting)).trans same⟩
  local_eq uiTpId socket found := by
    obtain ⟨old, isOld, role⟩ := backward uiTpId socket found
    obtain ⟨same, nonzero⟩ := ok.local_eq uiTpId old isOld
    exact ⟨role.local_eq.trans same, nonzero⟩
  accepting uiTpId socket found accepting := by
    obtain ⟨old, isOld, role⟩ := backward uiTpId socket found
    rw [role.accepting] at accepting
    obtain ⟨eType, pending, protocol, isProtocol, placed⟩ := ok.accepting uiTpId old isOld accepting
    refine ⟨role.eType.trans eType, role.pending accepting pending, protocol, ?_, placed⟩
    rw [protocols, role.protocol (.inr accepting)]
    exact isProtocol
  synRcvd uiTpId socket found rcvd := by
    obtain ⟨old, isOld, role⟩ := backward uiTpId socket found
    exact role.accepting.trans (ok.synRcvd uiTpId old isOld (role.synRcvd rcvd))

structure Keeps (work after : TpWork) : Prop where
  role : SameRole work.socket after.socket
  sockets : after.ctrl.hSocketNap = work.ctrl.hSocketNap
  protocols : after.ctrl.hProtocolNap = work.ctrl.hProtocolNap

theorem Keeps.of_role (role : SameRole work.socket after) : Keeps work ⟨work.ctrl, after⟩ :=
  ⟨role, rfl, rfl⟩

theorem Keeps.acceptOk (keeps : Keeps work workAfter) (ok : AcceptOk work.store) :
    AcceptOk workAfter.store := by
  obtain ⟨role, sockets, protocols⟩ := keeps
  refine ok.of_same protocols ?_ ?_
  · intro uiTpId socket found
    simp only [TpWork.store, TpCtrl.setSocket, sockets, role.local_eq, update_apply] at found ⊢
    split at found
    · next same =>
      cases found
      exact ⟨work.socket, if_pos same, role⟩
    · next other => exact ⟨socket, (if_neg other).trans found, .refl socket⟩
  intro uiTpId socket found
  simp only [TpWork.store, TpCtrl.setSocket, sockets, role.local_eq, update_apply] at found ⊢
  split at found
  · next same =>
    cases found
    exact ⟨workAfter.socket, if_pos same, role⟩
  · next other => exact ⟨socket, (if_neg other).trans found, .refl socket⟩

/-- The context after the slot `i` is emptied. -/
def TpCtrl.dropSlot (ctrl : TpCtrl) (uiProtocolId : UINT) (protocol : TpProtocol) (i : Nat)
    (socket : TpSocket) : TpCtrl :=
  (ctrl.setSocket socket).setProtocol uiProtocolId (some { protocol with
    astAcceptting := protocol.astAcceptting.set i none
    uiAccepttingNum := protocol.uiAccepttingNum - 1 })

section DropSlot

variable (ok : AcceptOk ctrl) {protocol : TpProtocol}
  (isProtocol : ctrl.hProtocolNap uiProtocolId = some protocol) {i : Nat}
  (slot : protocol.astAcceptting[i]? = some (some uiTpId))
  (found : ctrl.hSocketNap uiTpId = some socket)

include ok isProtocol slot found

theorem AcceptOk.slot_accepting :
    socket.uiProtocolId = uiProtocolId ∧ socket.eType = .conn := by
  obtain ⟨_, isKnown, accepting, -, same⟩ :=
    (ok.tables uiProtocolId protocol isProtocol).live uiTpId (mem_slots_iff.mpr ⟨i, slot⟩)
  cases found.symm.trans isKnown
  exact ⟨same, (ok.accepting uiTpId socket found accepting).1⟩

theorem AcceptOk.tableOk_dropSlot (localId : after.uiLocalTpId = uiTpId) {other : UINT}
    {stored : TpProtocol} (isStored : ctrl.hProtocolNap other = some stored)
    (differs : other ≠ uiProtocolId) :
    TableOk (ctrl.dropSlot uiProtocolId protocol i after) other stored := by
  obtain ⟨bound, eType⟩ := ok.slot_accepting isProtocol slot found
  have table := ok.tables other stored isStored
  refine { table with listener := ?_, live := fun placedId placed => ?_ }
  · obtain ⟨listener, isListener, isProtocolType, same⟩ := table.listener
    refine ⟨listener, ?_, isProtocolType, same⟩
    simp only [TpCtrl.dropSlot, TpCtrl.setProtocol, TpCtrl.setSocket, localId]
    rw [update_of_ne, isListener]
    intro equal
    rw [equal, found] at isListener
    cases isListener
    rw [eType] at isProtocolType
    cases isProtocolType
  obtain ⟨placedSocket, isPlaced, accepting, parent, same⟩ := table.live placedId placed
  refine ⟨placedSocket, ?_, accepting, parent, same⟩
  simp only [TpCtrl.dropSlot, TpCtrl.setProtocol, TpCtrl.setSocket, localId]
  rw [update_of_ne, isPlaced]
  intro equal
  rw [equal, found] at isPlaced
  cases isPlaced
  exact differs (same.symm.trans bound)

theorem AcceptOk.tableOk_emptied (localId : after.uiLocalTpId = uiTpId) :
    TableOk (ctrl.dropSlot uiProtocolId protocol i after) uiProtocolId { protocol with
      astAcceptting := protocol.astAcceptting.set i none
      uiAccepttingNum := protocol.uiAccepttingNum - 1 } := by
  obtain ⟨-, eType⟩ := ok.slot_accepting isProtocol slot found
  have table := ok.tables uiProtocolId protocol isProtocol
  have placed_iff (placedId : UINT) : some placedId ∈ protocol.astAcceptting.set i none ↔
      some placedId ∈ protocol.astAcceptting ∧ placedId ≠ uiTpId :=
    table.unique.mem_set_none slot
  constructor
  · exact table.nonzero
  · obtain ⟨listener, isListener, isProtocolType, same⟩ := table.listener
    refine ⟨listener, ?_, isProtocolType, same⟩
    simp only [TpCtrl.dropSlot, TpCtrl.setProtocol, TpCtrl.setSocket, localId]
    rw [update_of_ne, isListener]
    intro equal
    rw [equal, found] at isListener
    cases isListener
    rw [eType] at isProtocolType
    cases isProtocolType
  · simp only [length_set]
    exact table.size
  · simp only [table.count, usedSlots_set_none slot, BitVec.ofNat_add]
    exact BitVec.add_sub_cancel ..
  · exact fun placedId placed => table.listens placedId ((placed_iff placedId).mp placed).1
  · intro placedId placed
    obtain ⟨before, differs⟩ := (placed_iff placedId).mp placed
    obtain ⟨placedSocket, isPlaced, rest⟩ := table.live placedId before
    refine ⟨placedSocket, ?_, rest⟩
    simp only [TpCtrl.dropSlot, TpCtrl.setProtocol, TpCtrl.setSocket, localId]
    rw [update_of_ne differs, isPlaced]
  · exact table.unique.set_none slot

theorem AcceptOk.dropSlot (localId : after.uiLocalTpId = uiTpId) (free : after.accepting = false)
    (settled : after.uiStatus ≠ .synRcvd) :
    AcceptOk (ctrl.dropSlot uiProtocolId protocol i after) := by
  have sockets (other : UINT) : (ctrl.dropSlot uiProtocolId protocol i after).hSocketNap other =
      if other = uiTpId then some after else ctrl.hSocketNap other := by
    simp [TpCtrl.dropSlot, TpCtrl.setProtocol, TpCtrl.setSocket, localId, update_apply]
  constructor
  · intro other stored isStored
    simp only [TpCtrl.dropSlot, TpCtrl.setProtocol, TpCtrl.setSocket, update_apply] at isStored
    split at isStored
    · next same =>
      cases isStored
      exact same ▸ ok.tableOk_emptied isProtocol slot found localId
    · next differs => exact ok.tableOk_dropSlot isProtocol slot found localId isStored differs
  · intro other otherSocket isOther
    rw [sockets] at isOther
    split at isOther
    · next same =>
      cases isOther
      exact ⟨localId.trans same.symm, same ▸ (ok.local_eq uiTpId socket found).2⟩
    · exact ok.local_eq other otherSocket isOther
  · intro other otherSocket isOther accepting
    rw [sockets] at isOther
    split at isOther
    · cases isOther
      cases free.symm.trans accepting
    next differs =>
    obtain ⟨eType, pending, stored, isStored, placed⟩ :=
      ok.accepting other otherSocket isOther accepting
    refine ⟨eType, pending, ?_⟩
    simp only [TpCtrl.dropSlot, TpCtrl.setProtocol, TpCtrl.setSocket, update_apply]
    split
    · next same =>
      rw [same, isProtocol] at isStored
      cases isStored
      have table := ok.tables uiProtocolId protocol isProtocol
      exact ⟨_, rfl, (table.unique.mem_set_none slot).mpr ⟨placed, differs⟩⟩
    · exact ⟨stored, isStored, placed⟩
  · intro other otherSocket isOther rcvd
    rw [sockets] at isOther
    split at isOther
    · cases isOther
      exact absurd rcvd settled
    · exact ok.synRcvd other otherSocket isOther rcvd

end DropSlot

theorem store_self (localId : socket.uiLocalTpId = uiTpId)
    (found : ctrl.hSocketNap uiTpId = some socket) : TpWork.store ⟨ctrl, socket⟩ = ctrl := by
  simp only [TpWork.store, TpCtrl.setSocket, localId]
  rw [← found, update_eq_self]

theorem AcceptOk.abort (ok : AcceptOk work.store) : AcceptOk (tpSocketAbort work).store := by
  have found : work.store.hSocketNap work.socket.uiLocalTpId = some work.socket := update_self ..
  unfold tpSocketAbort
  split
  · next accepting =>
    obtain ⟨-, -, protocol, isProtocol, placed⟩ := ok.accepting _ work.socket found accepting
    have isStored : work.ctrl.hProtocolNap work.socket.uiProtocolId = some protocol := isProtocol
    simp only [isStored, tpProtocolDelAccepting]
    split
    · next absent =>
      have none := findIdx?_eq_none_iff.mp absent _ placed
      simp at none
    next i first =>
    obtain ⟨inside, same, -⟩ := findIdx?_eq_some_iff_getElem.mp first
    have slot : protocol.astAcceptting[i]? = some (some work.socket.uiLocalTpId) := by
      rw [getElem?_eq_getElem inside, beq_iff_eq.mp same]
    have dropped := @AcceptOk.dropSlot _ _ _ _ { work.socket with
      uiFlag := work.socket.uiFlag &&& ~~~tpSocketFlagAccepting, uiStatus := .closed }
      ok protocol isProtocol i slot found rfl (hasFlag_clear ..) nofun
    simp only [TpCtrl.dropSlot, TpWork.store, TpCtrl.setSocket, update_idem] at dropped
    exact dropped
  · next free =>
    exact (Keeps.of_role (.closed (Bool.not_eq_true _ ▸ free))).acceptOk ok

inductive Treats : TpWork → TpWork → Prop where
  | keep {work after : TpWork} : Keeps work after → Treats work after
  | abort (work : TpWork) : Treats work (tpSocketAbort work)
  | trans {work between after : TpWork} :
      Treats work between →
      Treats between after →
      Treats work after

theorem Treats.acceptOk (treats : Treats work workAfter) (ok : AcceptOk work.store) :
    AcceptOk workAfter.store := by
  induction treats with
  | keep keeps => exact keeps.acceptOk ok
  | abort => exact ok.abort
  | trans _ _ firstHypothesis secondHypothesis => exact secondHypothesis (firstHypothesis ok)

theorem Treats.refl (work : TpWork) : Treats work work :=
  .keep (.of_role (.refl _))

theorem Treats.of_role (role : SameRole work.socket after) : Treats work ⟨work.ctrl, after⟩ :=
  .keep (.of_role role)

theorem send_treats (work : TpWork) (mbuf : Mbuf) : Treats work (work.send mbuf) :=
  .keep ⟨.refl _, rfl, rfl⟩

theorem tpPktStartResendTimer_treats (outcome : TpOutcome) (work : TpWork) :
    Treats work (tpPktStartResendTimer outcome work) := by
  unfold tpPktStartResendTimer
  split
  · split
    · exact .of_role { SameRole.refl work.socket with }
    · exact .abort work
  · exact .of_role { SameRole.refl work.socket with }

theorem tpPktStopResendTimer_treats (work : TpWork) : Treats work (tpPktStopResendTimer work) := by
  unfold tpPktStopResendTimer
  split
  · exact .refl work
  · exact .of_role { SameRole.refl work.socket with }

theorem tpPktRecordAndSendPkt_treats (outcome : TpOutcome) (work : TpWork) (mbuf : Mbuf) :
    Treats work (tpPktRecordAndSendPkt outcome work mbuf) := by
  have recorded : Treats work { work with
      socket.stSendMbufQue := work.socket.stSendMbufQue ++ [mbuf]
      socket.iSn := work.socket.iSn + 1 } :=
    .of_role { SameRole.refl work.socket with }
  unfold tpPktRecordAndSendPkt
  simp only
  split
  · exact recorded.trans ((send_treats _ mbuf).trans (tpPktStartResendTimer_treats outcome _))
  · exact recorded

theorem tpPktSendAck_treats (work : TpWork) : Treats work (tpPktSendAck work) :=
  send_treats work _

theorem tpPtkSendQueMbuf_treats (work : TpWork) : Treats work (tpPtkSendQueMbuf work) := by
  unfold tpPtkSendQueMbuf
  split
  · exact .refl work
  · exact send_treats work _

theorem tpPktSendData_treats (outcome : TpOutcome) (data : List UCHAR) (work : TpWork) :
    Treats work (tpPktSendData outcome data work).1 := by
  simp only [tpPktSendData]
  split
  · exact .refl work
  split
  · exact .refl work
  split
  · exact .refl work
  have accepted : Treats work { work with socket.accepted := work.socket.accepted ++ [data] } :=
    .of_role { SameRole.refl work.socket with }
  exact accepted.trans (tpPktRecordAndSendPkt_treats outcome _ _)

theorem tpPktResendTimeOut_treats (work : TpWork) : Treats work (tpPktResendTimeOut work) := by
  unfold tpPktResendTimeOut
  split
  · exact .abort work
  have counted : Treats work { work with socket.usResendCount := work.socket.usResendCount + 1 } :=
    .of_role { SameRole.refl work.socket with }
  exact counted.trans (tpPtkSendQueMbuf_treats _)

theorem tpPktSendKeepAlive_treats (work : TpWork) : Treats work (tpPktSendKeepAlive work) := by
  unfold tpPktSendKeepAlive
  split
  · exact .refl work
  · exact send_treats work _

theorem tpPktKeepAlive_treats (work : TpWork) : Treats work (tpPktKeepAlive work) := by
  have probed : Treats work
      { work with socket.stKeepAlive := (kaKeepAlive work.socket.stKeepAlive).1 } :=
    .of_role { SameRole.refl work.socket with }
  simp only [tpPktKeepAlive]
  split
  · exact probed.trans (.abort _)
  · exact probed.trans (tpPktSendKeepAlive_treats _)

theorem tpPktStartKeepAlive_treats (outcome : TpOutcome) (work : TpWork) :
    Treats work (tpPktStartKeepAlive outcome work).1 := by
  unfold tpPktStartKeepAlive
  split
  · exact .refl work
  · exact .of_role { SameRole.refl work.socket with }

theorem tpPktAckInput_treats (pkt : TpPktHead) (work : TpWork) :
    Treats work (tpPktAckInput pkt work) := by
  have freed (que : List Mbuf) (usResendCount : Nat) : Treats work
      { work with socket.stSendMbufQue := que, socket.usResendCount := usResendCount } :=
    .of_role { SameRole.refl work.socket with }
  unfold tpPktAckInput
  simp only
  split
  · exact (freed _ _).trans (tpPktStopResendTimer_treats _)
  · exact (freed _ _).trans (tpPtkSendQueMbuf_treats _)

theorem tpPktRstInput_treats (pkt : TpPktHead) (work : TpWork) :
    Treats work (tpPktRstInput pkt work) := by
  unfold tpPktRstInput
  split
  · exact .abort work
  · exact .refl work

theorem tpPktEstablish_treats (outcome : TpOutcome) (pkt : TpPktHead) (work : TpWork) :
    Treats work (tpPktEstablish outcome pkt work).1 := by
  have started :=
    (Treats.of_role (.establish work.socket)).trans (tpPktStartKeepAlive_treats outcome _)
  simp only [tpPktEstablish]
  split
  · exact started.trans (.abort _)
  · exact started.trans (tpPktAckInput_treats pkt _)

theorem tpPktAck1Input_treats (outcome : TpOutcome) (pkt : TpPktHead) (work : TpWork) :
    Treats work (tpPktAck1Input outcome pkt work).1 := by
  unfold tpPktAck1Input
  split
  · exact tpPktEstablish_treats outcome pkt work
  · exact .refl work

theorem tpPktAck2Input_treats (outcome : TpOutcome) (pkt : TpPktHead) (work : TpWork) :
    Treats work (tpPktAck2Input outcome pkt work).1 := by
  unfold tpPktAck2Input
  split
  · exact .refl work
  · exact tpPktEstablish_treats outcome pkt work

theorem tpPktSynFlagIn_treats (pkt : TpPktHead) (work : TpWork) :
    Treats work (tpPktSynFlagIn pkt work) := by
  unfold tpPktSynFlagIn
  split
  · have taken : Treats work { work with socket.iAckSn := pkt.iSn + 1 } :=
      .of_role { SameRole.refl work.socket with }
    exact taken.trans (tpPktSendAck_treats _)
  · exact .refl work

theorem tpPktAckFlagIn_treats (outcome : TpOutcome) (pkt : TpPktHead) (work : TpWork) :
    Treats work (tpPktAckFlagIn outcome pkt work) := by
  unfold tpPktAckFlagIn
  split
  · split
    · exact tpPktAck1Input_treats outcome pkt work
    · exact tpPktAck2Input_treats outcome pkt work
    · exact tpPktAckInput_treats pkt work
  · exact .refl work

theorem tpPktKeepAliveInput_treats (pkt : TpPktHead) (work : TpWork) :
    Treats work (tpPktKeepAliveInput pkt work) := by
  unfold tpPktKeepAliveInput
  split
  · exact tpPktSendAck_treats work
  · exact .refl work

theorem tpPktFlagsIn_treats (outcome : TpOutcome) (pkt : TpPktHead) (work : TpWork) :
    Treats work (tpPktFlagsIn outcome pkt work) := by
  have first := (tpPktSynFlagIn_treats pkt work).trans (tpPktAckFlagIn_treats outcome pkt _)
  simp only [tpPktFlagsIn]
  split <;> split
  · exact (first.trans (tpPktKeepAliveInput_treats pkt _)).trans (tpPktRstInput_treats pkt _)
  · exact first.trans (tpPktRstInput_treats pkt _)
  · exact first.trans (tpPktKeepAliveInput_treats pkt _)
  · exact first

end MyCode.Tp
