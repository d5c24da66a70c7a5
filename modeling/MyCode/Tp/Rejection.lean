import MyCode.Tp.Backlog

/-!
# Packets that are refused

A packet is refused with an error, or by the checks behind its flags.  What a
socket learns from it and the restart of its keep-alive come before the checks.
-/

namespace MyCode.Tp

open KeepAlive Function

variable {ctrl after : TpCtrl} {outcome : TpOutcome} {pkt : TpPktHead} {socket : TpSocket}
  {work : TpWork} {ka : Ka} {ticks : UINT}

def tpPktReceiver (ctrl : TpCtrl) (pkt : TpPktHead) : Option TpSocket :=
  if pkt.uiProtocolId = 0 ∨ tpProtoMax < pkt.uiProtocolId then
    none
  else if pkt.uiDstTpId = 0 then
    none
  else
    tpPktFindSocket ctrl pkt

/-- What a socket takes over from a packet before the checks. -/
def tpPktLearn (pkt : TpPktHead) (socket : TpSocket) : TpSocket :=
  { socket with
    uiPeerTpId := if socket.uiStatus = .synSend then pkt.uiSrcTpId else socket.uiPeerTpId
    iAckSn := if hasFlag pkt.uiPktFlag tpPktFlagSyn then pkt.iSn + 1 else socket.iAckSn }

/-- The checks behind the flags `ACK`, `KEEP_ALIVE` and `RST` fail, as far as they are made. -/
structure FlagsRefused (pkt : TpPktHead) (socket : TpSocket) : Prop where
  checked : hasFlag pkt.uiPktFlag tpPktFlagAck = true ∨
    hasFlag pkt.uiPktFlag tpPktFlagKeepAlive = true ∨ hasFlag pkt.uiPktFlag tpPktFlagRst = true
  ack : hasFlag pkt.uiPktFlag tpPktFlagAck = true →
    (socket.uiStatus = .synSend ∧ pkt.iAckSn ≠ socket.iSn) ∨
      (socket.uiStatus = .synRcvd ∧ (socket.iSn ≠ pkt.iAckSn ∨ socket.iAckSn ≠ pkt.iSn))
  keepAlive : hasFlag pkt.uiPktFlag tpPktFlagKeepAlive = true →
    ¬ (pkt.iAckSn = socket.iSn ∧ pkt.iSn = socket.iAckSn ∧ socket.uiStatus = .establish)
  rst : hasFlag pkt.uiPktFlag tpPktFlagRst = true →
    ¬ (pkt.iAckSn = socket.iSn ∧ pkt.iSn = socket.iAckSn ∧ socket.uiStatus ≠ .closed)

def Refused (outcome : TpOutcome) (ctrl : TpCtrl) (pkt : TpPktHead) : Prop :=
  (tpPktProtocolPktIn outcome ctrl pkt).2 ≠ .ok ∨
    ∃ socket, tpPktReceiver ctrl pkt = some socket ∧ FlagsRefused pkt (tpPktLearn pkt socket)

/-- The ticks that are left of the keep-alives after a packet that is refused: a restart counts from
the idle time again. -/
def tpPktTicksAfter (ctrl : TpCtrl) (pkt : TpPktHead) (ticks : UINT → UINT) : UINT → UINT :=
  match tpPktReceiver ctrl pkt with
  | none => ticks
  | some socket =>
    if socket.stKeepAlive.usIdle ≠ 0 then
      update ticks socket.uiLocalTpId (socket.stKeepAlive.usIdle.setWidth 32)
    else
      ticks

structure Untouched (outcome : TpOutcome) (ctrl : TpCtrl) (pkt : TpPktHead)
    (ticks : UINT → UINT) : Prop where
  sockets : (tpPktProtocolPktIn outcome ctrl pkt).1.hSocketNap = ctrl.hSocketNap
  timers : tpPktTicksAfter ctrl pkt ticks = ticks

structure JustStarted (ka : Ka) (ticks : UINT) : Prop where
  probes : ka.usProbeCount = 0
  running : ka.usIdle ≠ 0 → ka.vclock = some (ka.usIdle.setWidth 32) ∧ ticks = ka.usIdle.setWidth 32
  stopped : ka.usIdle = 0 → ka.vclock = none

/-- There is nothing that a socket could learn from a packet. -/
structure NothingNew (pkt : TpPktHead) (socket : TpSocket) (ticks : UINT) : Prop where
  keepAlive : JustStarted socket.stKeepAlive ticks
  peer : socket.uiStatus = .synSend → hasFlag pkt.uiPktFlag tpPktFlagAck = true →
    socket.uiPeerTpId = pkt.uiSrcTpId
  iAckSn : hasFlag pkt.uiPktFlag tpPktFlagSyn = true →
    (socket.uiStatus = .synSend → hasFlag pkt.uiPktFlag tpPktFlagAck = true) →
    socket.iAckSn = pkt.iSn + 1

def IdsOk (ctrl : TpCtrl) : Prop :=
  ∀ uiTpId socket, ctrl.hSocketNap uiTpId = some socket → socket.uiLocalTpId = uiTpId

theorem kaReset_eq_iff :
    (kaReset ka = ka ∧ (ka.usIdle ≠ 0 → ticks = ka.usIdle.setWidth 32)) ↔ JustStarted ka ticks := by
  obtain ⟨-, -, -, -, -, -⟩ := ka
  unfold kaReset
  constructor
  · rintro ⟨same, left⟩
    split at same
    · next idle =>
      injection same with _ _ _ _ probes linked
      exact ⟨probes.symm, fun _ => ⟨linked.symm, left idle⟩, fun zero => absurd zero idle⟩
    · next idle =>
      injection same with _ _ _ _ probes linked
      exact ⟨probes.symm, fun nonzero => absurd nonzero idle, fun _ => linked.symm⟩
  · rintro ⟨probes, running, stopped⟩
    refine ⟨?_, fun idle => (running idle).2⟩
    simp only at probes running stopped ⊢
    split
    · next idle => rw [probes, (running idle).1]
    · next idle => rw [probes, stopped (not_not.mp idle)]

theorem learned_eq_iff {uiPeerTpId iAckSn : UINT} :
    { socket with
      uiPeerTpId := uiPeerTpId, iAckSn := iAckSn, stKeepAlive := kaReset socket.stKeepAlive } =
        socket ↔
      uiPeerTpId = socket.uiPeerTpId ∧ iAckSn = socket.iAckSn ∧
        kaReset socket.stKeepAlive = socket.stKeepAlive := by
  constructor
  · intro same
    exact ⟨congrArg TpSocket.uiPeerTpId same, congrArg TpSocket.iAckSn same,
      congrArg TpSocket.stKeepAlive same⟩
  · rintro ⟨peer, acks, keepAlive⟩
    rw [peer, acks, keepAlive]

theorem tpPktSynFlagIn_socket (pkt : TpPktHead) (work : TpWork) :
    (tpPktSynFlagIn pkt work).socket = { work.socket with
      iAckSn := if hasFlag pkt.uiPktFlag tpPktFlagSyn then pkt.iSn + 1 else work.socket.iAckSn } ∧
    (tpPktSynFlagIn pkt work).ctrl.hSocketNap = work.ctrl.hSocketNap := by
  unfold tpPktSynFlagIn
  split <;> exact ⟨rfl, rfl⟩

theorem FlagsRefused.flagsIn {learned : TpSocket} (refused : FlagsRefused pkt learned)
    (status : work.socket.uiStatus = learned.uiStatus) (iSn : work.socket.iSn = learned.iSn)
    (iAckSn : (tpPktSynFlagIn pkt work).socket.iAckSn = learned.iAckSn) :
    tpPktFlagsIn outcome pkt work = tpPktSynFlagIn pkt work := by
  obtain ⟨socketEq, -⟩ := tpPktSynFlagIn_socket pkt work
  have sameStatus : (tpPktSynFlagIn pkt work).socket.uiStatus = learned.uiStatus := by
    rw [socketEq]
    exact status
  have sameSn : (tpPktSynFlagIn pkt work).socket.iSn = learned.iSn := by
    rw [socketEq]
    exact iSn
  have acks : tpPktAckFlagIn outcome pkt (tpPktSynFlagIn pkt work) = tpPktSynFlagIn pkt work := by
    unfold tpPktAckFlagIn
    split
    · next flag =>
      obtain ⟨sending, other⟩ | ⟨received, other⟩ := refused.ack flag
      · rw [sameStatus, sending]
        simp [tpPktAck1Input, sameSn, other]
      · rw [sameStatus, received]
        simp [tpPktAck2Input, sameSn, iAckSn, other]
    · rfl
  have probes : (if hasFlag pkt.uiPktFlag tpPktFlagKeepAlive then
      tpPktKeepAliveInput pkt (tpPktSynFlagIn pkt work) else tpPktSynFlagIn pkt work) =
        tpPktSynFlagIn pkt work := by
    split
    · next flag =>
      rw [tpPktKeepAliveInput, sameSn, sameStatus, iAckSn]
      exact if_neg (refused.keepAlive flag)
    · rfl
  unfold tpPktFlagsIn
  simp only [acks, probes]
  split
  · next flag =>
    rw [tpPktRstInput, sameSn, sameStatus, iAckSn]
    exact if_neg (refused.rst flag)
  · rfl

theorem tpPktSynInput_refused (refused : (tpPktSynInput outcome ctrl pkt).2 ≠ .ok) :
    (tpPktSynInput outcome ctrl pkt).1.hSocketNap = ctrl.hSocketNap := by
  revert refused
  unfold tpPktSynInput
  split
  · exact fun _ => rfl
  split
  · exact fun _ => rfl
  split
  · exact fun _ => rfl
  split
  · exact fun _ => rfl
  simp only
  split
  · exact fun _ => rfl
  · exact fun refused => absurd rfl refused

theorem tp_idsOk (reached : tp.Reachable ctrl) : IdsOk ctrl :=
  fun uiTpId socket found => (tp_backlogsOk reached uiTpId socket found).1

theorem tpPktReceiver_found (reaches : tpPktReceiver ctrl pkt = some socket) :
    ctrl.hSocketNap pkt.uiDstTpId = some socket := by
  unfold tpPktReceiver at reaches
  split at reaches
  · cases reaches
  split at reaches
  · cases reaches
  · exact (tpPktFindSocket_eq_some reaches).1

theorem untouched_of_no_receiver {left : UINT → UINT} (none : tpPktReceiver ctrl pkt = none)
    (refused : Refused outcome ctrl pkt) : Untouched outcome ctrl pkt left := by
  constructor
  · obtain failed | ⟨_, reaches, -⟩ := refused
    · revert failed
      unfold tpPktProtocolPktIn
      unfold tpPktReceiver at none
      split
      · exact fun _ => rfl
      next supported =>
      rw [if_neg supported] at none
      split
      · exact fun failed => tpPktSynInput_refused failed
      next addressed =>
      rw [if_neg addressed] at none
      rw [none]
      simp only
      split <;> exact fun _ => rfl
    · rw [none] at reaches
      cases reaches
  · rw [tpPktTicksAfter, none]

theorem tpPktProtocolPktIn_receiver (outcome : TpOutcome)
    (reaches : tpPktReceiver ctrl pkt = some socket) :
    tpPktProtocolPktIn outcome ctrl pkt =
      if socket.uiStatus = .synSend ∧ hasFlag pkt.uiPktFlag tpPktFlagAck = false then
        (ctrl.setSocket (tpPktResetKeepAlive socket), .err)
      else
        ((tpPktFlagsIn outcome pkt ⟨ctrl, { tpPktResetKeepAlive socket with
          uiPeerTpId :=
            if socket.uiStatus = .synSend then pkt.uiSrcTpId else socket.uiPeerTpId }⟩).store, .ok) := by
  unfold tpPktReceiver at reaches
  split at reaches
  · cases reaches
  next supported =>
  split at reaches
  · cases reaches
  next addressed =>
  have status : (tpPktResetKeepAlive socket).uiStatus = socket.uiStatus := rfl
  rw [tpPktProtocolPktIn, if_neg supported, if_neg addressed, reaches]
  simp only [status]
  by_cases sending : socket.uiStatus = .synSend
  · cases flag : hasFlag pkt.uiPktFlag tpPktFlagAck with
    | false => simp only [sending, Bool.not_false, if_true, and_self]
    | true =>
      simp [sending]
  · simp only [sending, if_false, false_and]
    rfl

def refusedSocket (pkt : TpPktHead) (socket : TpSocket) : TpSocket :=
  { socket with
    uiPeerTpId :=
      if socket.uiStatus = .synSend ∧ hasFlag pkt.uiPktFlag tpPktFlagAck = true then
        pkt.uiSrcTpId
      else
        socket.uiPeerTpId
    iAckSn :=
      if hasFlag pkt.uiPktFlag tpPktFlagSyn = true ∧
          (socket.uiStatus = .synSend → hasFlag pkt.uiPktFlag tpPktFlagAck = true) then
        pkt.iSn + 1
      else
        socket.iAckSn
    stKeepAlive := kaReset socket.stKeepAlive }

theorem refused_receiver (reaches : tpPktReceiver ctrl pkt = some socket)
    (refused : Refused outcome ctrl pkt) :
    (tpPktProtocolPktIn outcome ctrl pkt).1.hSocketNap =
      update ctrl.hSocketNap socket.uiLocalTpId (some (refusedSocket pkt socket)) := by
  have input := tpPktProtocolPktIn_receiver outcome reaches
  by_cases unanswered : socket.uiStatus = .synSend ∧ hasFlag pkt.uiPktFlag tpPktFlagAck = false
  · obtain ⟨sending, flag⟩ := unanswered
    rw [input, if_pos ⟨sending, flag⟩, refusedSocket,
      if_neg (fun sends => absurd (flag.symm.trans sends.2) Bool.noConfusion),
      if_neg (fun takes => absurd (flag.symm.trans (takes.2 sending)) Bool.noConfusion)]
    rfl
  have answered :=  fun sending => Bool.not_eq_false _ |>.mp fun flag => unanswered ⟨sending, flag⟩
  rw [if_neg unanswered] at input
  obtain failed | ⟨_, reached, refused⟩ := refused
  · rw [input] at failed
    exact absurd rfl failed
  cases reaches.symm.trans reached
  obtain ⟨socketEq, sockets⟩ := tpPktSynFlagIn_socket pkt ⟨ctrl, { tpPktResetKeepAlive socket with
    uiPeerTpId := if socket.uiStatus = .synSend then pkt.uiSrcTpId else socket.uiPeerTpId }⟩
  have peer := propext ⟨And.left, fun sending => ⟨sending, answered sending⟩⟩
  rw [input, refused.flagsIn rfl rfl (by rw [socketEq]; rfl)]
  simp only [refusedSocket, peer, and_iff_left answered]
  rw [TpWork.store, TpCtrl.setSocket, sockets, socketEq]
  rfl

theorem refusedSocket_eq_iff (left : UINT) :
    (refusedSocket pkt socket = socket ∧
      (socket.stKeepAlive.usIdle ≠ 0 → left = socket.stKeepAlive.usIdle.setWidth 32)) ↔
      NothingNew pkt socket left := by
  rw [refusedSocket, learned_eq_iff]
  constructor
  · rintro ⟨⟨peer, acks, keepAlive⟩, restarted⟩
    refine ⟨kaReset_eq_iff.mp ⟨keepAlive, restarted⟩, fun sending flag => ?_, fun flag answered => ?_⟩
    · rw [if_pos ⟨sending, flag⟩] at peer
      exact peer.symm
    · rw [if_pos ⟨flag, answered⟩] at acks
      exact acks.symm
  rintro ⟨keepAlive, peer, acks⟩
  obtain ⟨kept, restarted⟩ := kaReset_eq_iff.mpr keepAlive
  refine ⟨⟨?_, ?_, kept⟩, restarted⟩
  · split
    · next sends => exact (peer sends.1 sends.2).symm
    · rfl
  · split
    · next takes => exact (acks takes.1 takes.2).symm
    · rfl

/-- A refusal touches nothing exactly where the packet had nothing new to teach its receiver. -/
theorem tpPktProtocolPktIn_untouched (idsOk : IdsOk ctrl) (outcome : TpOutcome) (pkt : TpPktHead)
    (ticks : UINT → UINT) (refused : Refused outcome ctrl pkt) :
    Untouched outcome ctrl pkt ticks ↔
      ∀ socket, tpPktReceiver ctrl pkt = some socket → NothingNew pkt socket (ticks pkt.uiDstTpId) := by
  cases reaches : tpPktReceiver ctrl pkt with
  | none => exact iff_of_true (untouched_of_no_receiver reaches refused) nofun
  | some socket =>
    have found := tpPktReceiver_found reaches
    have localId := idsOk _ socket found
    have sockets := refused_receiver reaches refused
    have timers : tpPktTicksAfter ctrl pkt ticks = ticks ↔ (socket.stKeepAlive.usIdle ≠ 0 →
          ticks pkt.uiDstTpId = socket.stKeepAlive.usIdle.setWidth 32) := by
      rw [tpPktTicksAfter, reaches]
      simp only [localId]
      split
      · next idle =>
        rw [update_eq_self_iff, eq_comm]
        exact ⟨fun same _ => same, fun same => same idle⟩
      · next idle => exact iff_of_true rfl fun nonzero => absurd nonzero idle
    have same : Untouched outcome ctrl pkt ticks ↔ refusedSocket pkt socket = socket ∧
        (socket.stKeepAlive.usIdle ≠ 0 →
          ticks pkt.uiDstTpId = socket.stKeepAlive.usIdle.setWidth 32) := by
      rw [← timers]
      constructor
      · rintro ⟨kept, left⟩
        rw [sockets, localId, update_eq_self_iff, found] at kept
        exact ⟨Option.some.inj kept, left⟩
      · rintro ⟨kept, left⟩
        refine ⟨?_, left⟩
        rw [sockets, localId, update_eq_self_iff, found, kept]
    rw [same, refusedSocket_eq_iff]
    exact ⟨fun nothing _ reached => Option.some.inj reached ▸ nothing, fun all => all socket rfl⟩

def tpConnecting : List (TpOutcome × TpCall) :=
  [(tpOutcomeOk (some 0x80000000), .socket .conn), (tpOutcomeOk none, .connect 0x80000000 5)]

/-- A reset without the flag `ACK`. -/
def tpRstPkt : Mbuf :=
  ⟨⟨5, 0x80000000, 0x80000001, 0, 0, tpPktFlagRst⟩, [], 0⟩

def tpForgedPkt : TpPktHead :=
  ⟨5, 0x80000000, 0x80000009, 41, 7, tpPktFlagSyn ||| tpPktFlagAck⟩

def tpConnectingReset : List (TpOutcome × TpCall) :=
  tpConnecting ++ [(tpOutcomeOk none, .pktInput tpRstPkt)]

theorem tp_reachable {labels : List (TpOutcome × TpCall)}
    (admitted : Lib.System.Admitted (fun ctrl label => label.2.Enabled label.1 ctrl) tpNext tpCreate
      labels) : tp.Reachable (labels.foldl tpNext tpCreate) := by
  have admits (ctrl : TpCtrl) (label : TpOutcome × TpCall) (enabled : label.2.Enabled label.1 ctrl) :
      True ∧ tp.step ctrl label (tpNext ctrl label) :=
    ⟨trivial, enabled, rfl⟩
  exact .foldl admits (.start rfl) admitted

theorem tpPktProtocolPktIn_untouched_again :
    ∃ ctrl, tp.Reachable ctrl ∧
      Refused (tpOutcomeOk none) ctrl tpRstPkt.stHead ∧
      Untouched (tpOutcomeOk none) ctrl tpRstPkt.stHead (fun _ => 3600) := by
  have reached := @tp_reachable tpConnectingReset (by decide +kernel)
  have refused : (tpPktProtocolPktIn (tpOutcomeOk none) (tpConnectingReset.foldl tpNext tpCreate)
      tpRstPkt.stHead).2 ≠ .ok := by
    decide +kernel
  obtain ⟨socket, reaches, keepAlive, -⟩ : ∃ socket ∈ tpPktReceiver
      (tpConnectingReset.foldl tpNext tpCreate)
      tpRstPkt.stHead,
      socket.stKeepAlive = ⟨3600, 10, 6, false, 0, some 3600⟩ ∧ socket.uiStatus = .synSend := by
    decide +kernel
  refine ⟨_, reached, .inl refused,
    (tpPktProtocolPktIn_untouched (tp_idsOk reached) _ _ _ (.inl refused)).mpr fun other found => ?_⟩
  cases reaches.symm.trans found
  refine ⟨?_, fun _ flag => absurd flag (by decide), fun flag _ => absurd flag (by decide)⟩
  rw [keepAlive]
  exact ⟨rfl, fun _ => ⟨rfl, rfl⟩, fun zero => absurd zero (by decide)⟩

/-- The socket takes the forged answer's source for its peer. -/
theorem tpPktProtocolPktIn_hijacked :
    ¬ ∀ ctrl, tp.Reachable ctrl → ∀ outcome pkt ticks, Refused outcome ctrl pkt →
      Untouched outcome ctrl pkt ticks := by
  intro holds
  have reached := @tp_reachable tpConnecting (by decide +kernel)
  obtain ⟨socket, reaches, sending, iSn⟩ : ∃ socket ∈ tpPktReceiver
      (tpConnecting.foldl tpNext tpCreate) tpForgedPkt,
      socket.uiStatus = .synSend ∧ socket.iSn = 1 := by
    decide +kernel
  have refused : Refused (tpOutcomeOk none) (tpConnecting.foldl tpNext tpCreate) tpForgedPkt := by
    refine .inr ⟨socket, reaches, .inl (by decide), fun _ => .inl ⟨sending, ?_⟩, ?_, ?_⟩
    · simp only [tpPktLearn, iSn]
      decide
    · exact fun flag => absurd flag (by decide)
    · exact fun flag => absurd flag (by decide)
  have same := (holds _ reached _ _ (fun _ => 0) refused).sockets
  have peer : (((tpPktProtocolPktIn (tpOutcomeOk none) (tpConnecting.foldl tpNext tpCreate)
      tpForgedPkt).1.hSocketNap 0x80000000).map TpSocket.uiPeerTpId) ≠
      ((tpConnecting.foldl tpNext tpCreate).hSocketNap 0x80000000).map TpSocket.uiPeerTpId := by
    decide +kernel
  rw [same] at peer
  exact peer rfl

end MyCode.Tp
