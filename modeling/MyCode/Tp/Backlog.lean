import MyCode.Tp.Accept
import MyCode.Tp.Moves

/-!
# The packets that a socket has not had acknowledged

They are numbered without gaps up to the number of the socket, and say what the
socket says of the two ends.  Packets may arrive from anywhere.
-/

namespace MyCode.Tp

open KeepAlive List Nat

variable {ctrl after : TpCtrl} {outcome : TpOutcome} {pkt : TpPktHead} {socket later : TpSocket}
  {work workAfter : TpWork} {uiTpId : UINT} {mbuf : Mbuf} {sent : List Mbuf}

structure Backlog (uiTpId : UINT) (socket : TpSocket) : Prop where
  idle : socket.eType = .protocol ∨ socket.uiStatus = .init → socket.stSendMbufQue = []
  short : socket.uiStatus = .synSend → socket.stSendMbufQue.length ≤ 1
  bounded : socket.stSendMbufQue.length ≤ tpSendMbufCount
  numbers : ∀ i mbuf, socket.stSendMbufQue[i]? = some mbuf →
    mbuf.stHead.iSn + BitVec.ofNat 32 (socket.stSendMbufQue.length - i) = socket.iSn
  heads : ∀ mbuf ∈ socket.stSendMbufQue, mbuf.stHead.uiSrcTpId = uiTpId ∧
    mbuf.stHead.uiProtocolId = socket.uiProtocolId ∧
    tpPktIsPktTakeSn mbuf.stHead.uiPktFlag = true
  peers : socket.uiStatus = .synRcvd ∨ socket.uiStatus = .establish →
    ∀ mbuf ∈ socket.stSendMbufQue, mbuf.stHead.uiDstTpId = socket.uiPeerTpId

theorem backlog_nil (uiTpId : UINT) (empty : socket.stSendMbufQue = []) :
    Backlog uiTpId socket where
  idle _ := empty
  short _ := by
    rw [empty]
    exact zero_le 1
  bounded := by
    rw [empty]
    exact zero_le _
  numbers i mbuf found := by
    rw [empty] at found
    cases found
  heads mbuf inside := by
    rw [empty] at inside
    cases inside
  peers _ mbuf inside := by
    rw [empty] at inside
    cases inside

theorem Backlog.of_core (backlog : Backlog uiTpId later) (same : socket.core = later.core) :
    Backlog uiTpId socket := by
  have core : Backlog uiTpId later.core := ⟨backlog.idle, backlog.short, backlog.bounded,
    backlog.numbers, backlog.heads, backlog.peers⟩
  rw [← same] at core
  exact ⟨core.idle, core.short, core.bounded, core.numbers, core.heads, core.peers⟩

section

variable (backlog : Backlog uiTpId socket)

include backlog

theorem Backlog.acks (iAckSn : UINT) :
    Backlog uiTpId { socket with iAckSn := iAckSn } :=
  ⟨backlog.idle, backlog.short, backlog.bounded, backlog.numbers, backlog.heads, backlog.peers⟩

theorem Backlog.closed :
    Backlog uiTpId { socket with uiStatus := .closed } where
  idle either := backlog.idle (either.imp_right nofun)
  short sending := nomatch sending
  bounded := backlog.bounded
  numbers := backlog.numbers
  heads := backlog.heads
  peers either := either.elim (nofun) nofun

theorem Backlog.learns (sending : socket.uiStatus = .synSend)
    (uiPeerTpId : UINT) : Backlog uiTpId { socket with uiPeerTpId := uiPeerTpId } where
  idle := backlog.idle
  short := backlog.short
  bounded := backlog.bounded
  numbers := backlog.numbers
  heads := backlog.heads
  peers either := by
    obtain rcvd | established := either
    · exact nomatch sending.symm.trans rcvd
    · exact nomatch sending.symm.trans established

theorem Backlog.dropWhile (acked : Mbuf → Bool) :
    Backlog uiTpId { socket with stSendMbufQue := socket.stSendMbufQue.dropWhile acked } := by
  have suffix := dropWhile_suffix acked (l := socket.stSendMbufQue)
  have shorter := suffix.length_le
  obtain ⟨freed, whole⟩ := suffix
  have inside : ∀ mbuf ∈ socket.stSendMbufQue.dropWhile acked, mbuf ∈ socket.stSendMbufQue := by
    intro mbuf left
    rw [← whole]
    exact mem_append_right _ left
  refine ⟨fun either => ?_, fun sending => ?_, ?_, fun i mbuf found => ?_, ?_, ?_⟩
  · simp [backlog.idle either]
  · exact Nat.le_trans shorter (backlog.short sending)
  · exact Nat.le_trans shorter backlog.bounded
  · have place : socket.stSendMbufQue[freed.length + i]? = some mbuf := by
      rw [← whole, getElem?_append_right (le_add_right _ _), Nat.add_sub_cancel_left]
      exact found
    have count : socket.stSendMbufQue.length - (freed.length + i) =
        (socket.stSendMbufQue.dropWhile acked).length - i := by
      have lengths := congrArg length whole
      rw [length_append] at lengths
      omega
    rw [← count]
    exact backlog.numbers _ mbuf place
  · exact fun mbuf left => backlog.heads mbuf (inside mbuf left)
  · exact fun either mbuf left => backlog.peers either mbuf (inside mbuf left)

theorem Backlog.push (isConn : socket.eType = .conn)
    (started : socket.uiStatus ≠ .init)
    (first : socket.uiStatus = .synSend → socket.stSendMbufQue = [])
    (room : socket.stSendMbufQue.length < tpSendMbufCount) (iSn : mbuf.stHead.iSn = socket.iSn)
    (src : mbuf.stHead.uiSrcTpId = uiTpId) (protocol : mbuf.stHead.uiProtocolId = socket.uiProtocolId)
    (takes : tpPktIsPktTakeSn mbuf.stHead.uiPktFlag = true)
    (dst : mbuf.stHead.uiDstTpId = socket.uiPeerTpId) :
    Backlog uiTpId { socket with
      stSendMbufQue := socket.stSendMbufQue ++ [mbuf], iSn := socket.iSn + 1 } where
  idle either := by
    obtain isProtocol | isInit := either
    · exact nomatch isConn.symm.trans isProtocol
    · exact absurd isInit started
  short sending := by
    simp only [first sending]
    exact Nat.le_refl 1
  bounded := by
    rw [length_append]
    exact room
  numbers i other found := by
    rw [length_append, length_singleton]
    obtain old | ⟨place, rfl⟩ : socket.stSendMbufQue[i]? = some other ∨
        i = socket.stSendMbufQue.length ∧ mbuf = other := by
      obtain before | behind := Nat.lt_or_ge i socket.stSendMbufQue.length
      · rw [getElem?_append_left before] at found
        exact .inl found
      rw [getElem?_append_right behind] at found
      obtain ⟨last, same⟩ := List.getElem?_eq_some_iff.mp found
      rw [length_singleton] at last
      refine .inr ⟨by omega, ?_⟩
      rw [← same, getElem_singleton]
    · have before := (List.getElem?_eq_some_iff.mp old).1
      have count : socket.stSendMbufQue.length + 1 - i = socket.stSendMbufQue.length - i + 1 := by
        omega
      rw [count, BitVec.ofNat_add, ← BitVec.add_assoc, backlog.numbers i other old]
      rfl
    · rw [place, Nat.add_sub_cancel_left, iSn]
      rfl
  heads other inside := by
    obtain old | new := mem_append.mp inside
    · exact backlog.heads other old
    · rw [mem_singleton.mp new]
      exact ⟨src, protocol, takes⟩
  peers either other inside := by
    obtain old | new := mem_append.mp inside
    · exact backlog.peers either other old
    · rw [mem_singleton.mp new]
      exact dst

theorem Backlog.acked_nil (sending : socket.uiStatus = .synSend) (acks : pkt.iAckSn = socket.iSn) :
    socket.stSendMbufQue.dropWhile (tpPktIsAcked pkt.iAckSn) = [] := by
  have short := backlog.short sending
  cases same : socket.stSendMbufQue with
  | nil => rfl
  | cons syn rest =>
    rw [same, length_cons] at short
    have alone : rest = [] := length_eq_zero_iff.mp (by omega)
    have number := backlog.numbers 0 syn (by rw [same]; rfl)
    rw [same, alone, length_singleton, Nat.sub_zero] at number
    have acked : tpPktIsAcked pkt.iAckSn syn = true := by
      have one : pkt.iAckSn - syn.stHead.iSn = 1 := by
        rw [acks, ← number, BitVec.add_comm, BitVec.add_sub_cancel]
        rfl
      rw [tpPktIsAcked, one]
      decide
    rw [alone, dropWhile_cons_of_pos acked, dropWhile_nil]

theorem Backlog.established
    (open' : (socket.uiStatus = .synSend ∧ pkt.iAckSn = socket.iSn) ∨ socket.uiStatus = .synRcvd) :
    Backlog uiTpId { socket with
      uiStatus := .establish
      stSendMbufQue := socket.stSendMbufQue.dropWhile (tpPktIsAcked pkt.iAckSn) } := by
  obtain ⟨sending, acks⟩ | rcvd := open'
  · exact backlog_nil uiTpId (backlog.acked_nil sending acks)
  have left := backlog.dropWhile (tpPktIsAcked pkt.iAckSn)
  exact ⟨fun either => left.idle (either.imp_right nofun),
    nofun, left.bounded, left.numbers, left.heads,
    fun _ => left.peers (.inl rcvd)⟩

end

/-- A function has the socket of an id in its hands and has changed no other one. -/
structure Holds (ctrl : TpCtrl) (uiTpId : UINT) (work : TpWork) : Prop where
  sockets : work.ctrl.hSocketNap = ctrl.hSocketNap
  local_eq : work.socket.uiLocalTpId = uiTpId
  backlog : Backlog uiTpId work.socket

theorem Holds.effect (holds : Holds ctrl uiTpId work) (effect : Effect work workAfter later sent)
    (local_eq : later.uiLocalTpId = uiTpId) (backlog : Backlog uiTpId later) :
    Holds ctrl uiTpId workAfter where
  sockets := effect.sockets.trans holds.sockets
  local_eq := (core_localTpId effect.core).trans local_eq
  backlog := backlog.of_core effect.core

theorem Holds.with_core (holds : Holds ctrl uiTpId work) (same : later.core = work.socket.core) :
    Holds ctrl uiTpId ⟨work.ctrl, later⟩ :=
  holds.effect (.of_socket same rfl) holds.local_eq holds.backlog

theorem Holds.abort (holds : Holds ctrl uiTpId work) : Holds ctrl uiTpId (tpSocketAbort work) :=
  holds.effect (tpSocketAbort_effect work) holds.local_eq holds.backlog.closed

theorem Holds.mayClose (holds : Holds ctrl uiTpId ⟨work.ctrl, later⟩) {closed : TpSocket}
    (closes : MayClose later closed) (effect : Effect work workAfter closed sent) :
    Holds ctrl uiTpId workAfter := by
  have sockets := effect.sockets.trans holds.sockets
  have same := core_localTpId effect.core
  obtain rfl | rfl := closes
  · exact ⟨sockets, same.trans holds.local_eq, holds.backlog.of_core effect.core⟩
  · exact ⟨sockets, same.trans holds.local_eq, holds.backlog.closed.of_core effect.core⟩

section

variable (holds : Holds ctrl uiTpId work)

include holds

theorem Holds.record (outcome : TpOutcome)
    (pushed : Backlog uiTpId { work.socket with
      stSendMbufQue := work.socket.stSendMbufQue ++ [mbuf], iSn := work.socket.iSn + 1 }) :
    Holds ctrl uiTpId (tpPktRecordAndSendPkt outcome work mbuf) := by
  obtain ⟨_, _, closes, effect, -⟩ := tpPktRecordAndSendPkt_effect outcome work mbuf
  have queued : Holds ctrl uiTpId ⟨work.ctrl, { work.socket with
      stSendMbufQue := work.socket.stSendMbufQue ++ [mbuf], iSn := work.socket.iSn + 1 }⟩ :=
    ⟨holds.sockets, holds.local_eq, pushed⟩
  exact queued.mayClose closes effect

theorem Holds.sendQue : Holds ctrl uiTpId (tpPtkSendQueMbuf work) := by
  obtain ⟨_, effect, -⟩ := tpPtkSendQueMbuf_effect work
  exact holds.effect effect holds.local_eq holds.backlog

theorem Holds.send (mbuf : Mbuf) : Holds ctrl uiTpId (work.send mbuf) :=
  ⟨holds.sockets, holds.local_eq, holds.backlog⟩

theorem Holds.ackInput (pkt : TpPktHead) : Holds ctrl uiTpId (tpPktAckInput pkt work) := by
  obtain ⟨_, effect, -⟩ := tpPktAckInput_effect pkt work
  exact holds.effect effect holds.local_eq (holds.backlog.dropWhile _)

theorem Holds.establish (outcome : TpOutcome)
    (opens : (work.socket.uiStatus = .synSend ∧ pkt.iAckSn = work.socket.iSn) ∨
      work.socket.uiStatus = .synRcvd) :
    Holds ctrl uiTpId (tpPktEstablish outcome pkt work).1 := by
  obtain effect | ⟨_, effect, -⟩ := tpPktEstablish_effect outcome pkt work
  · exact holds.effect effect holds.local_eq holds.backlog.closed
  · exact holds.effect effect holds.local_eq (holds.backlog.established opens)

theorem Holds.synFlagIn (pkt : TpPktHead) : Holds ctrl uiTpId (tpPktSynFlagIn pkt work) := by
  unfold tpPktSynFlagIn
  split
  · have learned : Holds ctrl uiTpId ⟨work.ctrl, { work.socket with iAckSn := pkt.iSn + 1 }⟩ :=
      ⟨holds.sockets, holds.local_eq, holds.backlog.acks _⟩
    exact learned.send _
  · exact holds

theorem Holds.ackFlagIn (outcome : TpOutcome) (pkt : TpPktHead) :
    Holds ctrl uiTpId (tpPktAckFlagIn outcome pkt work) := by
  unfold tpPktAckFlagIn
  split
  · split
    · unfold tpPktAck1Input
      split
      · next acked => exact holds.establish outcome (.inl ⟨acked.2, acked.1⟩)
      · exact holds
    · next received =>
      unfold tpPktAck2Input
      split
      · exact holds
      · exact holds.establish outcome (.inr received)
    · exact holds.ackInput pkt
  · exact holds

theorem Holds.keepAliveInput (pkt : TpPktHead) :
    Holds ctrl uiTpId (tpPktKeepAliveInput pkt work) := by
  unfold tpPktKeepAliveInput
  split
  · exact holds.send _
  · exact holds

theorem Holds.rstInput (pkt : TpPktHead) : Holds ctrl uiTpId (tpPktRstInput pkt work) := by
  unfold tpPktRstInput
  split
  · exact holds.abort
  · exact holds

theorem Holds.flagsIn (outcome : TpOutcome) (pkt : TpPktHead) :
    Holds ctrl uiTpId (tpPktFlagsIn outcome pkt work) := by
  have acked := (holds.synFlagIn pkt).ackFlagIn outcome pkt
  have probed : Holds ctrl uiTpId (if hasFlag pkt.uiPktFlag tpPktFlagKeepAlive then
        tpPktKeepAliveInput pkt (tpPktAckFlagIn outcome pkt (tpPktSynFlagIn pkt work))
      else
        tpPktAckFlagIn outcome pkt (tpPktSynFlagIn pkt work)) := by
    split
    · exact acked.keepAliveInput pkt
    · exact acked
  unfold tpPktFlagsIn
  by_cases reset : hasFlag pkt.uiPktFlag tpPktFlagRst = true
  · rw [if_pos reset]
    exact probed.rstInput pkt
  · rw [if_neg reset]
    exact probed

theorem Holds.sendData (outcome : TpOutcome) (data : List UCHAR) :
    Holds ctrl uiTpId (tpPktSendData outcome data work).1 := by
  unfold tpPktSendData
  split
  · exact holds
  next isConn =>
  split
  · exact holds
  next established =>
  rw [not_not] at isConn established
  split
  · exact holds
  next room =>
  have started : work.socket.uiStatus ≠ .init := by
    rw [established]
    exact nofun
  have taken : Holds ctrl uiTpId
      ⟨work.ctrl, { work.socket with accepted := work.socket.accepted ++ [data] }⟩ :=
    ⟨holds.sockets, holds.local_eq, ⟨holds.backlog.idle, holds.backlog.short,
      holds.backlog.bounded, holds.backlog.numbers, holds.backlog.heads, holds.backlog.peers⟩⟩
  exact taken.record outcome (taken.backlog.push isConn started
    (fun sending => nomatch established.symm.trans sending) (Nat.lt_of_not_le room) rfl
    holds.local_eq rfl (show tpPktIsPktTakeSn tpPktFlagData = true by decide) rfl)

theorem Holds.resendTimeOut : Holds ctrl uiTpId (tpPktResendTimeOut work) := by
  unfold tpPktResendTimeOut
  split
  · exact holds.abort
  have counted : Holds ctrl uiTpId
      ⟨work.ctrl, { work.socket with usResendCount := work.socket.usResendCount + 1 }⟩ :=
    holds.with_core rfl
  exact counted.sendQue

theorem Holds.keepAlive : Holds ctrl uiTpId (tpPktKeepAlive work) := by
  have probed : Holds ctrl uiTpId
      ⟨work.ctrl, { work.socket with stKeepAlive := (kaKeepAlive work.socket.stKeepAlive).1 }⟩ :=
    holds.with_core rfl
  simp only [tpPktKeepAlive]
  split
  · exact probed.abort
  unfold tpPktSendKeepAlive
  split
  · exact probed
  · exact probed.send _

end

def BacklogsOk (ctrl : TpCtrl) : Prop :=
  ∀ uiTpId socket, ctrl.hSocketNap uiTpId = some socket →
    socket.uiLocalTpId = uiTpId ∧ uiTpId ≠ 0 ∧ Backlog uiTpId socket

section

variable (ok : BacklogsOk ctrl)

include ok

theorem BacklogsOk.holds (found : ctrl.hSocketNap uiTpId = some socket) :
    Holds ctrl uiTpId ⟨ctrl, socket⟩ :=
  ⟨rfl, (ok uiTpId socket found).1, (ok uiTpId socket found).2.2⟩

theorem BacklogsOk.of_sockets (same : after.hSocketNap = ctrl.hSocketNap) : BacklogsOk after := by
  intro uiTpId socket found
  rw [same] at found
  exact ok uiTpId socket found

theorem BacklogsOk.store (nonzero : uiTpId ≠ 0)
    (holds : Holds ctrl uiTpId work) : BacklogsOk work.store := by
  intro other stored found
  simp only [TpWork.store, TpCtrl.setSocket, Function.update_apply, holds.local_eq, holds.sockets]
    at found
  split at found
  · next same =>
    cases found
    rw [same]
    exact ⟨holds.local_eq, nonzero, holds.backlog⟩
  · exact ok other stored found

theorem BacklogsOk.stored (found : ctrl.hSocketNap uiTpId = some socket)
    (holds : Holds ctrl uiTpId work) : BacklogsOk work.store :=
  ok.store (ok uiTpId socket found).2.1 holds

theorem BacklogsOk.setSocket (found : ctrl.hSocketNap uiTpId = some socket)
    (same : later.core = socket.core) : BacklogsOk (ctrl.setSocket later) :=
  ok.stored found ((ok.holds found).with_core same)

theorem BacklogsOk.withSocket {call : TpSocket → TpCtrl × BsStatus}
    (calls : ∀ socket, ctrl.hSocketNap uiTpId = some socket → BacklogsOk (call socket).1) :
    BacklogsOk (tpWithSocket ctrl uiTpId call).1 := by
  unfold tpWithSocket
  split
  · exact ok
  split
  · exact ok
  · next socket found => exact calls socket found

theorem BacklogsOk.timer {timeOut : TpWork → TpWork}
    (keeps : ∀ work, Holds ctrl uiTpId work → Holds ctrl uiTpId (timeOut work)) :
    BacklogsOk (tpTimer ctrl uiTpId timeOut) := by
  unfold tpTimer
  split
  · exact ok
  · next socket found => exact ok.stored found (keeps _ (ok.holds found))

theorem BacklogsOk.bind (uiTpId uiProtocolId : UINT) :
    BacklogsOk (tpBind outcome ctrl uiTpId uiProtocolId).1 := by
  unfold tpBind
  split
  · exact ok
  split
  · exact ok
  split
  · exact ok
  next socket found =>
  have holds := ok.holds found
  refine ok.stored found ?_
  unfold tpProtocolBindProtocol
  split
  · exact holds
  next isProtocol =>
  split
  · exact holds
  split
  · exact holds
  split
  · exact holds
  · exact ⟨rfl, holds.local_eq, backlog_nil uiTpId (holds.backlog.idle (.inl (not_not.mp isProtocol)))⟩

theorem BacklogsOk.connect (uiTpId uiProtocolId : UINT) :
    BacklogsOk (tpConnect outcome ctrl uiTpId uiProtocolId).1 := by
  unfold tpConnect
  split
  · exact ok
  split
  · exact ok
  split
  · exact ok
  next socket found =>
  split
  · exact ok
  next isConn =>
  split
  · exact ok
  next isInit =>
  rw [not_not] at isConn isInit
  have holds := ok.holds found
  have empty := holds.backlog.idle (.inr isInit)
  refine ok.stored found ?_
  have begun : Holds ctrl uiTpId
      ⟨ctrl, { socket with uiProtocolId := uiProtocolId, uiStatus := .synSend }⟩ :=
    ⟨rfl, holds.local_eq, backlog_nil uiTpId empty⟩
  exact begun.record outcome (begun.backlog.push isConn nofun (fun _ => empty)
    (by rw [show socket.stSendMbufQue = [] from empty]; decide) rfl holds.local_eq rfl
    (show tpPktIsPktTakeSn tpPktFlagSyn = true by decide) rfl)

theorem BacklogsOk.accept (uiTpId : UINT) : BacklogsOk (tpAccept ctrl uiTpId).1 := by
  unfold tpAccept
  split
  · exact ok
  split
  · exact ok
  unfold tpProtocolAccept
  split
  · exact ok
  split
  · exact ok
  split
  · exact ok
  split
  · exact ok
  next accepted isAccepted =>
  obtain ⟨_, -, found, -⟩ := tpProtocolFindAccepted_eq_some isAccepted
  have cleared : BacklogsOk (ctrl.setSocket
      { accepted with uiFlag := accepted.uiFlag &&& ~~~tpSocketFlagAccepting }) :=
    ok.setSocket found rfl
  exact cleared

theorem BacklogsOk.close (found : ctrl.hSocketNap uiTpId = some socket) :
    BacklogsOk (tpSocketFreeSocket (tpProtocolUnBindProtocol ctrl socket) uiTpId) := by
  have subset : ∀ other stored,
      (tpSocketFreeSocket (tpProtocolUnBindProtocol ctrl socket) uiTpId).hSocketNap other =
        some stored → ctrl.hSocketNap other = some stored := by
    intro other stored isStored
    cases tpClose_closes (ok uiTpId socket found).1 found with
    | socket _ same =>
      rw [same] at isStored
      simp only [tpSocketFreeSocket, Function.update_apply] at isStored
      split at isStored
      · cases isStored
      · exact isStored
    | listener _ _ _ _ sockets =>
      rw [sockets] at isStored
      split at isStored
      · cases isStored
      · exact isStored
  exact fun other stored isStored => ok other stored (subset other stored isStored)

section

variable
  (fresh : ∀ uiTpId, outcome.socketAlloc = some uiTpId → uiTpId ≠ 0 ∧ ctrl.hSocketNap uiTpId = none)

include fresh

theorem BacklogsOk.synInput (pkt : TpPktHead) : BacklogsOk (tpPktSynInput outcome ctrl pkt).1 := by
  unfold tpPktSynInput
  split
  · exact ok
  split
  · exact ok
  split
  · exact ok
  split
  · exact ok
  next uiTpId alloc =>
  simp only
  split
  · exact ok
  next protocolAfter accepting isAdded =>
  obtain ⟨nonzero, -⟩ := fresh uiTpId alloc
  obtain ⟨same, -⟩ := tpProtocolAddAccepting_core isAdded
  have empty := core_que same
  have isConn := congrArg TpSocket.eType same
  have received := core_status same
  have begun : Holds ctrl uiTpId
      ⟨ctrl.setProtocol pkt.uiProtocolId (some protocolAfter), accepting⟩ :=
    ⟨rfl, core_localTpId same, backlog_nil uiTpId empty⟩
  have started : accepting.uiStatus ≠ .init := by
    rw [received]
    exact nofun
  exact ok.store nonzero (begun.record outcome (begun.backlog.push isConn started
    (fun _ => empty) (by rw [show accepting.stSendMbufQue = [] from empty]; decide) rfl
    begun.local_eq rfl
    (show tpPktIsPktTakeSn (tpPktFlagSyn ||| tpPktFlagAck) = true by decide) rfl))

theorem BacklogsOk.pktInput (mbuf : Mbuf) : BacklogsOk (tpPktInput outcome ctrl mbuf).1 := by
  unfold tpPktInput
  split
  · unfold tpPktProtocolPktIn
    split
    · exact ok
    split
    · exact ok.synInput fresh mbuf.stHead
    split
    · split <;> exact ok
    next socket isFound =>
    have found := (tpPktFindSocket_eq_some isFound).1
    have reset : Holds ctrl mbuf.stHead.uiDstTpId ⟨ctrl, tpPktResetKeepAlive socket⟩ :=
      (ok.holds found).with_core rfl
    simp only
    split
    · next sending =>
      split
      · exact ok.stored found reset
      have learned : Holds ctrl mbuf.stHead.uiDstTpId ⟨ctrl, { tpPktResetKeepAlive socket with
          uiPeerTpId := mbuf.stHead.uiSrcTpId }⟩ :=
        ⟨rfl, reset.local_eq, reset.backlog.learns sending _⟩
      exact ok.stored found (learned.flagsIn outcome _)
    · exact ok.stored found (reset.flagsIn outcome _)
  unfold tpPktDataInput
  split
  · exact ok
  split
  · exact ok
  next socket isFound =>
  have found := (tpPktFindSocket_eq_some isFound).1
  have reset : Holds ctrl mbuf.stHead.uiDstTpId ⟨ctrl, tpPktResetKeepAlive socket⟩ :=
    (ok.holds found).with_core rfl
  split
  · exact ok
  simp only
  split
  · exact ok.stored found reset
  split
  · have backlog := reset.backlog
    exact ok.stored found ⟨rfl, reset.local_eq, ⟨backlog.idle, backlog.short, backlog.bounded,
      backlog.numbers, backlog.heads, backlog.peers⟩⟩
  · exact ok.stored found (reset.send _)

theorem BacklogsOk.newSocket (eType : TpType) : BacklogsOk (tpSocket outcome ctrl eType).1 := by
  unfold tpSocket
  split
  · exact ok
  next uiTpId alloc =>
  have begun : Holds ctrl uiTpId ⟨ctrl, tpSocketNewSocket ctrl uiTpId eType⟩ :=
    ⟨rfl, rfl, backlog_nil uiTpId rfl⟩
  exact ok.store (fresh uiTpId alloc).1 begun

end

end

theorem BacklogsOk.run {call : TpCall} (ok : BacklogsOk ctrl)
    (enabled : call.Enabled outcome ctrl) : BacklogsOk (call.run outcome ctrl) := by
  cases call with
  | socket eType => exact ok.newSocket enabled.1 eType
  | bind uiTpId uiProtocolId => exact ok.bind uiTpId uiProtocolId
  | listen =>
    refine ok.withSocket fun socket _ => ok.of_sockets ?_
    unfold tpProtocolListen
    split
    · rfl
    split
    · rfl
    split <;> rfl
  | connect uiTpId uiProtocolId => exact ok.connect uiTpId uiProtocolId
  | accept uiTpId => exact ok.accept uiTpId
  | setOptNbio =>
    refine ok.withSocket fun socket found => ok.setSocket found ?_
    unfold tpSocketSetOptNbio
    split <;> rfl
  | setOptKeepAliveTime => exact ok.withSocket fun socket found => ok.setSocket found rfl
  | setDftKeepAlive => exact ok
  | sendMbuf _ data =>
    exact ok.withSocket fun socket found => ok.stored found ((ok.holds found).sendData outcome data)
  | recvMbuf =>
    simp only [TpCall.run, tpRecvMbuf]
    split
    · exact ok
    split
    · exact ok
    · next socket found => exact ok.setSocket found rfl
  | close => exact ok.withSocket fun socket found => ok.close found
  | tiggerKeepAlive =>
    simp only [TpCall.run, tpTiggerKeepAlive]
    split
    · exact ok
    · exact ok.timer fun _ => Holds.keepAlive
  | resendTimeOut => exact ok.timer fun _ => Holds.resendTimeOut
  | keepAliveTimeOut => exact ok.timer fun _ => Holds.keepAlive
  | pktInput mbuf => exact ok.pktInput enabled.1 mbuf

theorem tp_backlogsOk (reached : tp.Reachable ctrl) : BacklogsOk ctrl := by
  refine Lib.System.Reachable.invariant ?_ ?_ reached
  · rintro _ rfl
    exact nofun
  · rintro _ _ _ ok ⟨enabled, rfl⟩
    exact ok.run enabled

end MyCode.Tp
