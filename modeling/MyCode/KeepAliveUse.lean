import MyCode.Ses.Moves
import MyCode.Tp.Instance

/-!
# Keep-alives in use

`KA_Reset` and `KA_Stop` take the clock out of the keep-alive that they are
called with.  The keep-alives of these calls are collected over a run, each as it
is at the call.  Only `KA_Start` attaches a keep-alive to a clock.
-/

namespace MyCode.KeepAlive

section Uses

universe u v

variable {Ctrl : Type u} {Label : Type v} (next : Ctrl → Label → Ctrl)
  (uses : Ctrl → Label → List Ka)

def usesOf : Ctrl → List Label → List Ka
  | _, [] => []
  | ctrl, label :: rest => uses ctrl label ++ usesOf (next ctrl label) rest

variable {next uses}

theorem usesOf_attached_iff {Clean : Ctrl → Prop} {admits spares : Ctrl → Label → Prop}
    (spared : ∀ ctrl label, admits ctrl label → (uses ctrl label = [] ↔ spares ctrl label))
    (early : ∀ ctrl label, Clean ctrl → admits ctrl label →
      uses ctrl label = [] ∨ ∃ ka ∈ uses ctrl label, ka.hVClockInstance = false)
    (kept : ∀ ctrl label, Clean ctrl → admits ctrl label → uses ctrl label = [] →
      Clean (next ctrl label))
    {ctrl : Ctrl} {labels : List Label} (clean : Clean ctrl)
    (admitted : Lib.System.Admitted admits next ctrl labels) :
    (∀ ka ∈ usesOf next uses ctrl labels, ka.hVClockInstance = true) ↔
      Lib.System.Admitted spares next ctrl labels := by
  induction labels generalizing ctrl with
  | nil => exact ⟨fun _ => trivial, nofun⟩
  | cons label rest ih =>
    obtain ⟨admits, later⟩ := admitted
    rcases early ctrl label clean admits with none | ⟨ka, used, unattached⟩
    · have kept := ih (kept ctrl label clean admits none) later
      rw [usesOf, none, List.nil_append, kept, Lib.System.Admitted]
      exact ⟨fun rest => ⟨(spared ctrl label admits).mp none, rest⟩, fun both => both.2⟩
    constructor
    · intro attached
      have wrong := attached ka (List.mem_append_left _ used)
      rw [unattached] at wrong
      cases wrong
    · intro both
      rw [(spared ctrl label admits).mpr both.1] at used
      nomatch used

end Uses

end MyCode.KeepAlive

namespace MyCode.Tp

open KeepAlive

variable {ctrl : TpCtrl} {outcome : TpOutcome} {call : TpCall} {work : TpWork} {socket : TpSocket}

/-- The protocol and the socket with which `tp_pkt_SynInput` calls
`_TP_Protocol_AddAccepting`. -/
def tpSynSocket (outcome : TpOutcome) (ctrl : TpCtrl) (pkt : TpPktHead) :
    Option (TpProtocol × TpSocket) :=
  if !hasFlag pkt.uiPktFlag tpPktFlagSyn then
    none
  else
    match ctrl.hProtocolNap pkt.uiProtocolId with
    | none => none
    | some protocol =>
      if !tpProtocolCanAccepting protocol then
        none
      else
        outcome.socketAlloc.map fun uiTpId => (protocol, { tpSocketNewSocket ctrl uiTpId .conn with
          uiProtocolId := pkt.uiProtocolId
          uiPeerTpId := pkt.uiSrcTpId
          iAckSn := pkt.iSn + 1
          uiStatus := .synRcvd
          uiListenTpId := protocol.uiLocalTpId })

/-- A new socket is freed if it is not added or its answer is not built. -/
def tpSynUses (outcome : TpOutcome) (answer : Bool) (ctrl : TpCtrl) (pkt : TpPktHead) : List Ka :=
  match tpSynSocket outcome ctrl pkt with
  | none => []
  | some (protocol, socket) =>
    if (tpProtocolAddAccepting protocol socket).isNone || !answer then
      [socket.stKeepAlive]
    else
      []

def tpPktUses (outcome : TpOutcome) (answer : Bool) (ctrl : TpCtrl) (mbuf : Mbuf) : List Ka :=
  if !hasFlag mbuf.stHead.uiPktFlag tpPktFlagData then
    if mbuf.stHead.uiProtocolId = 0 ∨ tpProtoMax < mbuf.stHead.uiProtocolId then
      []
    else if mbuf.stHead.uiDstTpId = 0 then
      tpSynUses outcome answer ctrl mbuf.stHead
    else
      match tpPktFindSocket ctrl mbuf.stHead with
      | none => []
      | some socket => [socket.stKeepAlive]
  else if mbuf.data = [] then
    []
  else
    match tpPktFindSocket ctrl mbuf.stHead with
    | none => []
    | some socket => if socket.eType ≠ .conn then [] else [socket.stKeepAlive]

/-- `_TP_Protocol_UnBindProtocol` frees the sockets in the slots. -/
def tpUnBindUses (ctrl : TpCtrl) (socket : TpSocket) : List Ka :=
  if socket.eType ≠ .protocol then
    []
  else if socket.uiProtocolId = 0 then
    []
  else
    match ctrl.hProtocolNap socket.uiProtocolId with
    | none => []
    | some protocol => (protocol.astAcceptting.filterMap id).filterMap fun uiTpId =>
      (ctrl.hSocketNap uiTpId).map TpSocket.stKeepAlive

/-- The keep-alives that a call gives to `KA_Reset` and `KA_Stop`. -/
def TpCall.uses (outcome : TpOutcome) (answer : Bool) (ctrl : TpCtrl) : TpCall → List Ka
  | setOptKeepAliveTime uiTpId usIdle usIntval usMaxProbeCount =>
    if uiTpId = 0 then
      []
    else
      match tpSocketFindSocket ctrl uiTpId with
      | none => []
      | some socket => [{ socket.stKeepAlive with
          usIdle := usIdle, usIntval := usIntval, usMaxProbeCount := usMaxProbeCount }]
  | close uiTpId =>
    if uiTpId = 0 then
      []
    else
      match tpSocketFindSocket ctrl uiTpId with
      | none => []
      | some socket => tpUnBindUses ctrl socket ++ [socket.stKeepAlive]
  | pktInput mbuf => tpPktUses outcome answer ctrl mbuf
  | _ => []

/-- Whether the answer to a `SYN` cannot be built, so that nothing is left of it. -/
def tpSynUnanswered (outcome : TpOutcome) (answer : Bool) (ctrl : TpCtrl) (mbuf : Mbuf) : Bool :=
  !hasFlag mbuf.stHead.uiPktFlag tpPktFlagData &&
    !decide (mbuf.stHead.uiProtocolId = 0 ∨ tpProtoMax < mbuf.stHead.uiProtocolId) &&
    decide (mbuf.stHead.uiDstTpId = 0) && !answer &&
    (tpSynSocket outcome ctrl mbuf.stHead).any fun added =>
      (tpProtocolAddAccepting added.1 added.2).isSome

/-- A call with whether the answer to a `SYN` is built. -/
def tpUseNext (ctrl : TpCtrl) (label : TpOutcome × Bool × TpCall) : TpCtrl :=
  match label.2.2 with
  | .pktInput mbuf =>
    if tpSynUnanswered label.1 label.2.1 ctrl mbuf then
      ctrl
    else
      (tpPktInput label.1 ctrl mbuf).1
  | call => call.run label.1 ctrl

def tpUses (ctrl : TpCtrl) (label : TpOutcome × Bool × TpCall) : List Ka :=
  label.2.2.uses label.1 label.2.1 ctrl

def tpEnabled (ctrl : TpCtrl) (label : TpOutcome × Bool × TpCall) : Prop :=
  label.2.2.Enabled label.1 ctrl

instance (ctrl : TpCtrl) (label : TpOutcome × Bool × TpCall) : Decidable (tpEnabled ctrl label) :=
  inferInstanceAs (Decidable (label.2.2.Enabled label.1 ctrl))

/-- Options are set and sockets closed only where there is none, packets find no
socket that would take them, and a `SYN` leads to a socket that stays or to none. -/
def TpSpares (ctrl : TpCtrl) (label : TpOutcome × Bool × TpCall) : Prop :=
  match label.2.2 with
  | .setOptKeepAliveTime uiTpId _ _ _ | .close uiTpId => uiTpId = 0 ∨ ctrl.hSocketNap uiTpId = none
  | .pktInput mbuf =>
    if hasFlag mbuf.stHead.uiPktFlag tpPktFlagData then
      mbuf.data = [] ∨ ∀ socket ∈ tpPktFindSocket ctrl mbuf.stHead, socket.eType ≠ .conn
    else
      mbuf.stHead.uiProtocolId = 0 ∨ tpProtoMax < mbuf.stHead.uiProtocolId ∨
        if mbuf.stHead.uiDstTpId = 0 then
          ∀ added ∈ tpSynSocket label.1 ctrl mbuf.stHead,
            label.2.1 = true ∧ none ∈ added.1.astAcceptting
        else
          tpPktFindSocket ctrl mbuf.stHead = none
  | _ => True

def TpClean (ctrl : TpCtrl) : Prop :=
  ∀ uiTpId socket, ctrl.hSocketNap uiTpId = some socket →
    socket.stKeepAlive.hVClockInstance = false

theorem TpClean.setSocket (clean : TpClean ctrl)
    (unattached : socket.stKeepAlive.hVClockInstance = false) : TpClean (ctrl.setSocket socket) := by
  intro uiTpId other found
  simp only [TpCtrl.setSocket, Function.update_apply] at found
  split at found
  · cases found
    exact unattached
  · exact clean uiTpId other found

theorem TpClean.of_sockets {after : TpCtrl} (clean : TpClean ctrl)
    (same : after.hSocketNap = ctrl.hSocketNap) : TpClean after := by
  intro uiTpId socket found
  rw [same] at found
  exact clean uiTpId socket found

/-- The sockets stay, and the keep-alive in hand stays unattached. -/
structure Loose (work after : TpWork) : Prop where
  attached : after.socket.stKeepAlive.hVClockInstance = work.socket.stKeepAlive.hVClockInstance
  sockets : after.ctrl.hSocketNap = work.ctrl.hSocketNap

theorem Loose.refl (work : TpWork) : Loose work work :=
  ⟨rfl, rfl⟩

theorem Loose.trans {after last : TpWork} (first : Loose work after) (second : Loose after last) :
    Loose work last :=
  ⟨second.attached.trans first.attached, second.sockets.trans first.sockets⟩

theorem Loose.store {after : TpWork} (loose : Loose work after) (clean : TpClean work.ctrl)
    (unattached : work.socket.stKeepAlive.hVClockInstance = false) : TpClean after.store := by
  have kept := clean.of_sockets loose.sockets
  exact kept.setSocket (loose.attached.trans unattached)

theorem tpProtocolDelAccepting_keepAlive (protocol : TpProtocol) (socket : TpSocket) :
    (tpProtocolDelAccepting protocol socket).2.stKeepAlive = socket.stKeepAlive := by
  unfold tpProtocolDelAccepting
  split <;> rfl

theorem tpSocketAbort_loose (work : TpWork) : Loose work (tpSocketAbort work) := by
  refine ⟨?_, (tpSocketAbort_effect work).sockets⟩
  unfold tpSocketAbort
  split
  · split
    · rfl
    · next protocol _ => exact congrArg _ (tpProtocolDelAccepting_keepAlive protocol work.socket)
  · rfl

theorem tpPktStartResendTimer_loose (outcome : TpOutcome) (work : TpWork) :
    Loose work (tpPktStartResendTimer outcome work) := by
  unfold tpPktStartResendTimer
  split
  · split
    · exact ⟨rfl, rfl⟩
    · exact tpSocketAbort_loose work
  · exact ⟨rfl, rfl⟩

theorem tpPktRecordAndSendPkt_loose (outcome : TpOutcome) (work : TpWork) (mbuf : Mbuf) :
    Loose work (tpPktRecordAndSendPkt outcome work mbuf) := by
  unfold tpPktRecordAndSendPkt
  simp only
  split
  · have timer := tpPktStartResendTimer_loose outcome (TpWork.send { work with
      socket.stSendMbufQue := work.socket.stSendMbufQue ++ [mbuf]
      socket.iSn := work.socket.iSn + 1 } mbuf)
    exact ⟨timer.attached, timer.sockets⟩
  · exact ⟨rfl, rfl⟩

theorem tpPtkSendQueMbuf_loose (work : TpWork) : Loose work (tpPtkSendQueMbuf work) := by
  unfold tpPtkSendQueMbuf
  split
  · exact .refl work
  · exact ⟨rfl, rfl⟩

theorem tpPktResendTimeOut_loose (work : TpWork) : Loose work (tpPktResendTimeOut work) := by
  unfold tpPktResendTimeOut
  split
  · exact tpSocketAbort_loose work
  have sent := tpPtkSendQueMbuf_loose { work with
    socket.usResendCount := work.socket.usResendCount + 1 }
  exact ⟨sent.attached, sent.sockets⟩

theorem tpPktKeepAlive_loose (work : TpWork) : Loose work (tpPktKeepAlive work) := by
  have probed : Loose work { work with
      socket.stKeepAlive := (kaKeepAlive work.socket.stKeepAlive).1 } := by
    refine ⟨?_, rfl⟩
    simp only [kaKeepAlive]
    split <;> rfl
  unfold tpPktKeepAlive
  simp only
  split
  · exact probed.trans (tpSocketAbort_loose _)
  refine probed.trans ?_
  unfold tpPktSendKeepAlive
  split
  · exact .refl _
  · exact ⟨rfl, rfl⟩

theorem tpProtocolAddAccepting_keepAlive {protocol after : TpProtocol} {last : TpSocket}
    (added : tpProtocolAddAccepting protocol socket = some (after, last)) :
    last.stKeepAlive = socket.stKeepAlive := by
  unfold tpProtocolAddAccepting at added
  split at added
  · cases added
  · cases added
    rfl

section

variable (clean : TpClean ctrl)

include clean

theorem tpSynInput_clean (pkt : TpPktHead) : TpClean (tpPktSynInput outcome ctrl pkt).1 := by
  unfold tpPktSynInput
  split
  · exact clean
  split
  · exact clean
  split
  · exact clean
  split
  · exact clean
  next uiTpId _ =>
  simp only
  split
  · exact clean
  next protocol _ _ after last added =>
  have answered := tpPktRecordAndSendPkt_loose outcome
    ⟨ctrl.setProtocol pkt.uiProtocolId (some after), last⟩
    (tpPktBuildProtocolPkt last (tpPktFlagSyn ||| tpPktFlagAck))
  refine answered.store (clean.of_sockets rfl) ?_
  simp only [tpProtocolAddAccepting_keepAlive added]
  rfl

theorem tpAccept_clean (uiTpId : UINT) : TpClean (tpAccept ctrl uiTpId).1 := by
  unfold tpAccept
  split
  · exact clean
  split
  · exact clean
  unfold tpProtocolAccept
  split
  · exact clean
  split
  · exact clean
  split
  · exact clean
  split
  · exact clean
  next i accepted isAccepted =>
  obtain ⟨acceptedId, -, found, -⟩ := tpProtocolFindAccepted_eq_some isAccepted
  have flagged := clean.setSocket
    (show ({ accepted with uiFlag := accepted.uiFlag &&& ~~~tpSocketFlagAccepting } :
      TpSocket).stKeepAlive.hVClockInstance = false from clean acceptedId accepted found)
  exact flagged.of_sockets rfl

theorem tpWithSocket_clean {uiTpId : UINT} {called : TpSocket → TpCtrl × BsStatus}
    (kept : ∀ socket, ctrl.hSocketNap uiTpId = some socket → TpClean (called socket).1) :
    TpClean (tpWithSocket ctrl uiTpId called).1 := by
  unfold tpWithSocket
  split
  · exact clean
  split
  · exact clean
  · next socket found => exact kept socket found

theorem tpTimer_clean {uiTpId : UINT} {timeOut : TpWork → TpWork}
    (loose : ∀ work, Loose work (timeOut work)) : TpClean (tpTimer ctrl uiTpId timeOut) := by
  unfold tpTimer
  split
  · exact clean
  · next socket found => exact (loose _).store clean (clean uiTpId socket found)

theorem TpClean.freeSocket (uiTpId : UINT) : TpClean (tpSocketFreeSocket ctrl uiTpId) := by
  intro other socket found
  simp only [tpSocketFreeSocket, Function.update_apply] at found
  split at found
  · cases found
  · exact clean other socket found

theorem TpClean.freeSockets (slots : List UINT) :
    TpClean (slots.foldl tpSocketFreeSocket ctrl) := by
  induction slots generalizing ctrl with
  | nil => exact clean
  | cons uiTpId _ ih => exact ih (clean.freeSocket uiTpId)

theorem tpProtocolUnBindProtocol_clean (socket : TpSocket) :
    TpClean (tpProtocolUnBindProtocol ctrl socket) := by
  unfold tpProtocolUnBindProtocol
  split
  · exact clean
  split
  · exact clean
  split
  · exact clean
  next protocol _ =>
  have freed := (clean.freeSockets (protocol.astAcceptting.filterMap id)).of_sockets rfl
  simp only
  split
  · exact freed
  · next own found => exact freed.setSocket (freed _ own found)

theorem tpBind_clean (uiTpId uiProtocolId : UINT) :
    TpClean (tpBind outcome ctrl uiTpId uiProtocolId).1 := by
  unfold tpBind
  split
  · exact clean
  split
  · exact clean
  split
  · exact clean
  next socket found =>
  have bound : Loose ⟨ctrl, socket⟩
      (tpProtocolBindProtocol outcome uiProtocolId ⟨ctrl, socket⟩).1 := by
    unfold tpProtocolBindProtocol
    split
    · exact .refl _
    split
    · exact .refl _
    split
    · exact .refl _
    split
    · exact .refl _
    · exact ⟨rfl, rfl⟩
  exact bound.store clean (clean uiTpId socket found)

theorem tpConnect_clean (uiTpId uiProtocolId : UINT) :
    TpClean (tpConnect outcome ctrl uiTpId uiProtocolId).1 := by
  unfold tpConnect
  split
  · exact clean
  split
  · exact clean
  split
  · exact clean
  split
  · exact clean
  split
  · exact clean
  next socket found _ _ =>
  have sent : Loose ⟨ctrl, { socket with uiProtocolId := uiProtocolId }⟩
      (tpPktSendSyn outcome ⟨ctrl, { socket with uiProtocolId := uiProtocolId }⟩) := by
    have recorded := tpPktRecordAndSendPkt_loose outcome
      ⟨ctrl, { socket with uiProtocolId := uiProtocolId, uiStatus := .synSend }⟩
      (tpPktBuildProtocolPkt { socket with
        uiProtocolId := uiProtocolId, uiStatus := .synSend } tpPktFlagSyn)
    exact ⟨recorded.attached, recorded.sockets⟩
  exact sent.store clean (clean uiTpId socket found)

theorem tpSendMbuf_clean (uiTpId : UINT) (data : List UCHAR) :
    TpClean (tpSendMbuf outcome ctrl uiTpId data).1 := by
  refine tpWithSocket_clean clean fun socket found => ?_
  have sent : Loose ⟨ctrl, socket⟩ (tpPktSendData outcome data ⟨ctrl, socket⟩).1 := by
    unfold tpPktSendData
    split
    · exact .refl _
    split
    · exact .refl _
    split
    · exact .refl _
    have recorded := tpPktRecordAndSendPkt_loose outcome
      ⟨ctrl, { socket with accepted := socket.accepted ++ [data] }⟩
      ⟨tpPktFillPktHeader socket tpPktFlagData, data, socket.accepted.length⟩
    exact ⟨recorded.attached, recorded.sockets⟩
  exact sent.store clean (clean uiTpId socket found)

end

theorem tpSynSocket_unattached {pkt : TpPktHead} {protocol : TpProtocol}
    (made : tpSynSocket outcome ctrl pkt = some (protocol, socket)) :
    socket.stKeepAlive.hVClockInstance = false := by
  unfold tpSynSocket at made
  split at made
  · cases made
  split at made
  · cases made
  split at made
  · cases made
  obtain ⟨_, -, same⟩ := Option.map_eq_some_iff.mp made
  cases same
  rfl

theorem tpFindSocket_unattached (clean : TpClean ctrl) {pkt : TpPktHead}
    (found : tpPktFindSocket ctrl pkt = some socket) :
    socket.stKeepAlive.hVClockInstance = false :=
  clean _ socket (tpPktFindSocket_eq_some found).1

theorem tpPktUses_unattached (clean : TpClean ctrl) (answer : Bool) (mbuf : Mbuf) :
    ∀ ka ∈ tpPktUses outcome answer ctrl mbuf, ka.hVClockInstance = false := by
  intro ka used
  unfold tpPktUses at used
  split at used
  · split at used
    · nomatch used
    split at used
    · unfold tpSynUses at used
      split at used
      · nomatch used
      next made =>
      split at used
      · rw [List.mem_singleton.mp used]
        exact tpSynSocket_unattached made
      · nomatch used
    · split at used
      · nomatch used
      next found =>
      rw [List.mem_singleton.mp used]
      exact tpFindSocket_unattached clean found
  split at used
  · nomatch used
  split at used
  · nomatch used
  split at used
  · nomatch used
  next found _ =>
  rw [List.mem_singleton.mp used]
  exact tpFindSocket_unattached clean found

theorem tpUnBindUses_unattached (clean : TpClean ctrl) (socket : TpSocket) :
    ∀ ka ∈ tpUnBindUses ctrl socket, ka.hVClockInstance = false := by
  intro ka used
  unfold tpUnBindUses at used
  split at used
  · nomatch used
  split at used
  · nomatch used
  split at used
  · nomatch used
  obtain ⟨uiTpId, -, isUsed⟩ := List.mem_filterMap.mp used
  obtain ⟨accepted, found, rfl⟩ := Option.map_eq_some_iff.mp isUsed
  exact clean uiTpId accepted found

theorem tpUses_unattached (clean : TpClean ctrl) (answer : Bool) (call : TpCall) :
    ∀ ka ∈ call.uses outcome answer ctrl, ka.hVClockInstance = false := by
  intro ka used
  cases call with
  | setOptKeepAliveTime uiTpId =>
    simp only [TpCall.uses] at used
    split at used
    · nomatch used
    split at used
    · nomatch used
    next socket found =>
    rw [List.mem_singleton.mp used]
    exact clean uiTpId socket found
  | close uiTpId =>
    simp only [TpCall.uses] at used
    split at used
    · nomatch used
    split at used
    · nomatch used
    next socket found =>
    rcases List.mem_append.mp used with slot | own
    · exact tpUnBindUses_unattached clean socket ka slot
    · rw [List.mem_singleton.mp own]
      exact clean uiTpId socket found
  | pktInput mbuf => exact tpPktUses_unattached clean answer mbuf ka used
  | socket | bind | listen | connect | accept | setOptNbio | setDftKeepAlive | sendMbuf | recvMbuf
  | tiggerKeepAlive | resendTimeOut | keepAliveTimeOut => nomatch used

theorem tpPktUses_nil {answer : Bool} {mbuf : Mbuf} (none : tpPktUses outcome answer ctrl mbuf = [])
    (clean : TpClean ctrl) : TpClean (tpPktInput outcome ctrl mbuf).1 := by
  unfold tpPktUses at none
  unfold tpPktInput
  split at none
  · next protocol =>
    rw [if_pos protocol]
    unfold tpPktProtocolPktIn
    split
    · exact clean
    split
    · exact tpSynInput_clean clean mbuf.stHead
    next proper directed =>
    rw [if_neg proper, if_neg directed] at none
    cases found : tpPktFindSocket ctrl mbuf.stHead with
    | none =>
      simp only
      split <;> exact clean
    | some =>
      rw [found] at none
      cases none
  next data =>
  rw [if_neg data]
  unfold tpPktDataInput
  split at none
  · next empty =>
    rw [if_pos empty]
    exact clean
  next filled =>
  rw [if_neg filled]
  cases found : tpPktFindSocket ctrl mbuf.stHead with
  | none => exact clean
  | some =>
    rw [found] at none
    simp only at none ⊢
    split at none
    · next unfit =>
      rw [if_pos unfit]
      exact clean
    · cases none

theorem TpClean.next (clean : TpClean ctrl) {label : TpOutcome × Bool × TpCall}
    (none : tpUses ctrl label = []) : TpClean (tpUseNext ctrl label) := by
  obtain ⟨_, _, call⟩ := label
  unfold tpUseNext
  cases call with
  | pktInput =>
    simp only
    split
    · exact clean
    · exact tpPktUses_nil none clean
  | socket =>
    simp only [TpCall.run, tpSocket]
    split
    · exact clean
    · exact clean.setSocket rfl
  | bind uiTpId uiProtocolId => exact tpBind_clean clean uiTpId uiProtocolId
  | listen =>
    refine tpWithSocket_clean clean fun socket _ => ?_
    unfold tpProtocolListen
    split
    · exact clean
    split
    · exact clean
    split <;> exact clean
  | connect uiTpId uiProtocolId => exact tpConnect_clean clean uiTpId uiProtocolId
  | accept uiTpId => exact tpAccept_clean clean uiTpId
  | setOptNbio uiTpId =>
    refine tpWithSocket_clean clean fun socket found => clean.setSocket ?_
    have unattached := clean uiTpId socket found
    unfold tpSocketSetOptNbio
    split <;> exact unattached
  | setOptKeepAliveTime uiTpId =>
    refine tpWithSocket_clean clean fun socket found => clean.setSocket ?_
    exact (Ses.kaReset_attached _).trans (clean uiTpId socket found)
  | setDftKeepAlive => exact clean
  | sendMbuf uiTpId data => exact tpSendMbuf_clean clean uiTpId data
  | recvMbuf uiTpId =>
    simp only [TpCall.run, tpRecvMbuf]
    split
    · exact clean
    split
    · exact clean
    · next socket found => exact clean.setSocket (clean uiTpId socket found)
  | close uiTpId =>
    refine tpWithSocket_clean clean fun socket _ => ?_
    exact (tpProtocolUnBindProtocol_clean clean socket).freeSocket uiTpId
  | tiggerKeepAlive =>
    simp only [TpCall.run, tpTiggerKeepAlive]
    split
    · exact clean
    · exact tpTimer_clean clean tpPktKeepAlive_loose
  | resendTimeOut => exact tpTimer_clean clean tpPktResendTimeOut_loose
  | keepAliveTimeOut => exact tpTimer_clean clean tpPktKeepAlive_loose

theorem tpProtocolAddAccepting_isNone (protocol : TpProtocol) (socket : TpSocket) :
    (tpProtocolAddAccepting protocol socket).isNone = true ↔ none ∉ protocol.astAcceptting := by
  unfold tpProtocolAddAccepting
  have free : (protocol.astAcceptting.findIdx? fun slot => slot == none) = none ↔
      none ∉ protocol.astAcceptting := by
    rw [List.findIdx?_eq_none_iff]
    constructor
    · intro all inside
      exact absurd (all none inside) (by decide)
    intro full slot inside
    cases slot with
    | none => exact absurd inside full
    | some => rfl
  rw [← free]
  split
  · next missing => exact ⟨fun _ => missing, fun _ => rfl⟩
  next i isFree =>
  rw [isFree]
  exact ⟨nofun, nofun⟩

theorem tpSynUses_nil (answer : Bool) (pkt : TpPktHead) :
    tpSynUses outcome answer ctrl pkt = [] ↔ ∀ added ∈ tpSynSocket outcome ctrl pkt,
      answer = true ∧ none ∈ added.1.astAcceptting := by
  unfold tpSynUses
  split
  · next missing =>
    rw [missing]
    exact ⟨nofun, fun _ => rfl⟩
  next protocol socket made =>
  rw [made]
  have full := tpProtocolAddAccepting_isNone protocol socket
  constructor
  · intro unused added isAdded
    cases Option.mem_some_iff.mp isAdded
    split at unused
    · cases unused
    next stays =>
    rw [Bool.or_eq_true, not_or] at stays
    refine ⟨by simpa using stays.2, by_contra fun used => stays.1 (full.mpr used)⟩
  · intro stays
    obtain ⟨answered, free⟩ := stays _ rfl
    rw [if_neg]
    rw [Bool.or_eq_true, not_or, answered]
    exact ⟨fun isNone => full.mp isNone free, nofun⟩

theorem tpPktUses_nil_iff (answer : Bool) (mbuf : Mbuf) :
    tpPktUses outcome answer ctrl mbuf = [] ↔
      TpSpares ctrl (outcome, answer, .pktInput mbuf) := by
  unfold tpPktUses TpSpares
  simp only
  cases hasFlag mbuf.stHead.uiPktFlag tpPktFlagData with
  | false =>
    simp only [Bool.not_false, if_true, Bool.false_eq_true, if_false]
    by_cases proper : mbuf.stHead.uiProtocolId = 0 ∨ tpProtoMax < mbuf.stHead.uiProtocolId
    · rw [if_pos proper, ← or_assoc]
      exact ⟨fun _ => .inl proper, fun _ => rfl⟩
    rw [if_neg proper, ← or_assoc, or_iff_right proper]
    split
    · exact tpSynUses_nil answer mbuf.stHead
    split
    · next missing => exact ⟨fun _ => missing, fun _ => rfl⟩
    next socket found =>
    rw [found]
    exact ⟨nofun, nofun⟩
  | true =>
    simp only [Bool.not_true, Bool.false_eq_true, if_false, if_true]
    by_cases empty : mbuf.data = []
    · rw [if_pos empty]
      exact ⟨fun _ => .inl empty, fun _ => rfl⟩
    rw [if_neg empty, or_iff_right empty]
    split
    · next missing =>
      rw [missing]
      exact ⟨nofun, fun _ => rfl⟩
    next socket found =>
    rw [found]
    constructor
    · intro unused other isFound
      cases Option.mem_some_iff.mp isFound
      split at unused
      · next unfit => exact unfit
      · cases unused
    · intro unfit
      rw [if_pos (unfit socket rfl)]

theorem tpUses_nil_iff (ctrl : TpCtrl) (label : TpOutcome × Bool × TpCall) :
    tpUses ctrl label = [] ↔ TpSpares ctrl label := by
  obtain ⟨-, answer, call⟩ := label
  cases call with
  | pktInput mbuf => exact tpPktUses_nil_iff answer mbuf
  | setOptKeepAliveTime =>
    simp only [tpUses, TpCall.uses, TpSpares, tpSocketFindSocket]
    split
    · next zero => exact ⟨fun _ => .inl zero, fun _ => rfl⟩
    next nonzero =>
    rw [or_iff_right nonzero]
    split
    · next missing => exact ⟨fun _ => missing, fun _ => rfl⟩
    next socket found =>
    rw [found]
    exact ⟨nofun, nofun⟩
  | close =>
    simp only [tpUses, TpCall.uses, TpSpares, tpSocketFindSocket]
    split
    · next zero => exact ⟨fun _ => .inl zero, fun _ => rfl⟩
    next nonzero =>
    rw [or_iff_right nonzero]
    split
    · next missing => exact ⟨fun _ => missing, fun _ => rfl⟩
    next socket found =>
    rw [found]
    exact ⟨fun unused => absurd (List.append_eq_nil_iff.mp unused).2 (List.cons_ne_nil _ _),
      nofun⟩
  | socket | bind | listen | connect | accept | setOptNbio | setDftKeepAlive | sendMbuf | recvMbuf
  | tiggerKeepAlive | resendTimeOut | keepAliveTimeOut => exact ⟨fun _ => trivial, fun _ => rfl⟩

theorem tp_attached_iff {labels : List (TpOutcome × Bool × TpCall)}
    (admitted : Lib.System.Admitted tpEnabled tpUseNext tpCreate labels) :
    (∀ ka ∈ usesOf tpUseNext tpUses tpCreate labels, ka.hVClockInstance = true) ↔
      Lib.System.Admitted TpSpares tpUseNext tpCreate labels := by
  have early (ctrl : TpCtrl) (label : TpOutcome × Bool × TpCall) (clean : TpClean ctrl)
      (_ : tpEnabled ctrl label) :
      tpUses ctrl label = [] ∨ ∃ ka ∈ tpUses ctrl label, ka.hVClockInstance = false := by
    have all : ∀ ka ∈ tpUses ctrl label, _ := tpUses_unattached clean label.2.1 label.2.2
    cases isUses : tpUses ctrl label with
    | nil => exact .inl rfl
    | cons ka =>
      rw [isUses] at all
      exact .inr ⟨ka, List.mem_cons_self, all ka List.mem_cons_self⟩
  have start : TpClean tpCreate := nofun
  exact usesOf_attached_iff (fun ctrl label _ => tpUses_nil_iff ctrl label) early
    (fun _ _ clean _ none => clean.next none) start admitted

end MyCode.Tp

namespace MyCode.Ses

open KeepAlive

variable {ctrl : SesCtrl} {outcome : SesOutcome} {call : SesCall} {session : SesNode}

/-- `ses_NewSes` frees a node without its memory, which is still zeroed. -/
def sesNewUses (outcome : SesOutcome) : List Ka :=
  match outcome.sesAlloc with
  | none => []
  | some _ => if outcome.sesMemory then [] else [⟨0, 0, 0, false, 0, none⟩]

/-- A new session is freed if it cannot answer. -/
def sesSynUses (outcome : SesOutcome) (ctrl : SesCtrl) (pkt : SesPktHead) : List Ka :=
  if !pkt.has sesPktFlagSyn then
    []
  else
    sesNewUses outcome ++
      match sesNewID outcome with
      | none => []
      | some uiSesID =>
        let session := sesHalfOpen ctrl uiSesID pkt
        if (sesSendSynAck outcome ⟨ctrl, session⟩).2 ≠ .ok then [session.stKeepAliveOpt] else []

/-- The refresh, and the abort at the end of `ses_ProtocolPktIn`. -/
def sesFoundUses (outcome : SesOutcome) (ctrl : SesCtrl) (pkt : SesPktHead) (session : SesNode) :
    List Ka :=
  session.stKeepAliveOpt ::
    if pkt.has sesPktFlagSyn ∧ session.uiStatus ≠ .synSend then
      []
    else
      let work := sesAckFlagIn outcome pkt
        (sesSynFlagIn outcome pkt ⟨ctrl, sesRefreshKeepAlive session⟩)
      if pkt.has sesPktFlagRst then [work.session.stKeepAliveOpt] else []

def sesPktUses (outcome : SesOutcome) (ctrl : SesCtrl) (pkt : SesPkt) : List Ka :=
  if !outcome.makeContinue then
    []
  else if pkt.stPktHeader.has sesPktFlagData then
    match sesFindSesNode ctrl pkt.stPktHeader with
    | none => []
    | some session => [session.stKeepAliveOpt]
  else if pkt.stPktHeader.uiDstSesId = 0 then
    sesSynUses outcome ctrl pkt.stPktHeader
  else
    match sesFindSesNode ctrl pkt.stPktHeader with
    | none => []
    | some session => sesFoundUses outcome ctrl pkt.stPktHeader session

/-- The keep-alives that a call gives to `KA_Reset` and `KA_Stop`. -/
def SesCall.uses (outcome : SesOutcome) (ctrl : SesCtrl) : SesCall → List Ka
  | createClient => sesNewUses outcome
  | close uiSesID =>
    match ctrl.hNap uiSesID with
    | none => []
    | some session => [session.stKeepAliveOpt]
  | setOptKeepAliveTime uiSesID pstKeepAlive =>
    match ctrl.hNap uiSesID with
    | none => []
    | some session => [{ session.stKeepAliveOpt with
        usIdle := pstKeepAlive.usIdle
        usIntval := pstKeepAlive.usIntval
        usMaxProbeCount := pstKeepAlive.usMaxProbeCount }]
  | resendTimeOut uiSesID =>
    match ctrl.hNap uiSesID with
    | none => []
    | some session =>
      if session.pstSendMbuf.isSome ∧ sesDftPktResendCountMax ≤ session.usResendCount then
        [session.stKeepAliveOpt]
      else
        []
  | keepAliveTimeOut uiSesID =>
    match ctrl.hNap uiSesID with
    | none => []
    | some session =>
      let probe := kaKeepAlive session.stKeepAliveOpt
      if probe.2 then [probe.1] else []
  | pktInput pkt => sesPktUses outcome ctrl pkt
  | _ => []

def sesUseNext (ctrl : SesCtrl) (label : SesOutcome × SesCall) : SesCtrl :=
  label.2.run label.1 ctrl

def sesUses (ctrl : SesCtrl) (label : SesOutcome × SesCall) : List Ka :=
  label.2.uses label.1 ctrl

def sesEnabled (ctrl : SesCtrl) (label : SesOutcome × SesCall) : Prop :=
  label.2.Enabled label.1 ctrl

instance (ctrl : SesCtrl) (label : SesOutcome × SesCall) : Decidable (sesEnabled ctrl label) :=
  inferInstanceAs (Decidable (label.2.Enabled label.1 ctrl))

/-- Sessions are made with all their memory, are not closed or given options, and
do not give up, and packets find no session. -/
def SesSpares (ctrl : SesCtrl) (label : SesOutcome × SesCall) : Prop :=
  match label.2 with
  | .createClient => label.1.sesAlloc.isSome → label.1.sesMemory = true
  | .close uiSesID | .setOptKeepAliveTime uiSesID _ => ctrl.hNap uiSesID = none
  | .resendTimeOut uiSesID => ∀ session ∈ ctrl.hNap uiSesID,
      session.pstSendMbuf.isSome → session.usResendCount < sesDftPktResendCountMax
  | .keepAliveTimeOut uiSesID => ∀ session ∈ ctrl.hNap uiSesID,
      session.stKeepAliveOpt.usProbeCount < session.stKeepAliveOpt.usMaxProbeCount
  | .pktInput pkt => label.1.makeContinue = true →
      if pkt.stPktHeader.has sesPktFlagData = false ∧ pkt.stPktHeader.uiDstSesId = 0 then
        pkt.stPktHeader.has sesPktFlagSyn = true → label.1.sesAlloc.isSome →
          label.1.sesMemory = true ∧ label.1.buildPkt = true ∧ label.1.createTimer = true
      else
        sesFindSesNode ctrl pkt.stPktHeader = none
  | _ => True

structure SesClean (ctrl : SesCtrl) : Prop where
  localsOk : LocalsOk ctrl
  unattached : ∀ uiSesID session, ctrl.hNap uiSesID = some session → session.attached = false

theorem sesNewUses_nil_iff :
    sesNewUses outcome = [] ↔ (outcome.sesAlloc.isSome → outcome.sesMemory = true) := by
  unfold sesNewUses
  cases outcome.sesAlloc with
  | none => exact ⟨nofun, fun _ => rfl⟩
  | some =>
    cases outcome.sesMemory with
    | true => exact ⟨fun _ _ => rfl, fun _ => rfl⟩
    | false => exact ⟨nofun, fun memory => (nomatch memory rfl)⟩

theorem sesSendSynAck_ok {uiSesID : UINT} {pkt : SesPktHead} :
    (sesSendSynAck outcome ⟨ctrl, sesHalfOpen ctrl uiSesID pkt⟩).2 = .ok ↔
      outcome.buildPkt = true ∧ outcome.createTimer = true := by
  unfold sesSendSynAck sesRecordAndSendPkt sesStartResenderTimer
  cases outcome.buildPkt with
  | false => exact ⟨nofun, fun both => (nomatch both.1)⟩
  | true =>
    cases outcome.createTimer with
    | false => exact ⟨nofun, fun both => (nomatch both.2)⟩
    | true => exact ⟨fun _ => ⟨rfl, rfl⟩, fun _ => rfl⟩

theorem sesSynUses_nil_iff (pkt : SesPktHead) :
    sesSynUses outcome ctrl pkt = [] ↔ (pkt.has sesPktFlagSyn = true → outcome.sesAlloc.isSome →
      outcome.sesMemory = true ∧ outcome.buildPkt = true ∧ outcome.createTimer = true) := by
  unfold sesSynUses
  cases pkt.has sesPktFlagSyn with
  | false => exact ⟨nofun, fun _ => rfl⟩
  | true =>
    simp only [Bool.not_true, Bool.false_eq_true, if_false, List.append_eq_nil_iff,
      sesNewUses_nil_iff, sesNewID, true_implies]
    cases alloc : outcome.sesAlloc with
    | none =>
      refine ⟨nofun, fun _ => ⟨nofun, ?_⟩⟩
      split
      · rfl
      · next isSome =>
        split at isSome <;> cases isSome
    | some uiSesID =>
      cases outcome.sesMemory with
      | false => exact ⟨fun both => (nomatch both.1 rfl), fun stays => (nomatch (stays rfl).1)⟩
      | true =>
        simp only [if_true, Option.isSome_some, true_implies, true_and]
        rw [← @sesSendSynAck_ok ctrl outcome uiSesID pkt]
        split
        · next failed => exact ⟨nofun, fun answered => absurd answered failed⟩
        · next answered => exact ⟨fun _ => not_not.mp answered, fun _ => rfl⟩

theorem sesPktUses_nil_iff (pkt : SesPkt) :
    sesPktUses outcome ctrl pkt = [] ↔ SesSpares ctrl (outcome, .pktInput pkt) := by
  unfold sesPktUses SesSpares
  cases outcome.makeContinue with
  | false => exact ⟨nofun, fun _ => rfl⟩
  | true =>
    simp only [Bool.not_true, Bool.false_eq_true, if_false, true_implies]
    have data_iff : ∀ {session : SesNode} {rest : List Ka},
        sesFindSesNode ctrl pkt.stPktHeader = some session →
        (session.stKeepAliveOpt :: rest = [] ↔ sesFindSesNode ctrl pkt.stPktHeader = none) := by
      intro session rest found
      rw [found]
      exact ⟨nofun, nofun⟩
    cases pkt.stPktHeader.has sesPktFlagData with
    | true =>
      simp only [if_true, Bool.true_eq_false, false_and, if_false]
      split
      · next missing => exact ⟨fun _ => missing, fun _ => rfl⟩
      · next session found => exact data_iff found
    | false =>
      simp only [Bool.false_eq_true, if_false, true_and]
      split
      · exact sesSynUses_nil_iff pkt.stPktHeader
      split
      · next missing => exact ⟨fun _ => missing, fun _ => rfl⟩
      · next session found => exact data_iff found

theorem sesUses_nil_iff (ctrl : SesCtrl) (label : SesOutcome × SesCall) :
    sesUses ctrl label = [] ↔ SesSpares ctrl label := by
  obtain ⟨-, call⟩ := label
  cases call with
  | createClient => exact sesNewUses_nil_iff
  | pktInput pkt => exact sesPktUses_nil_iff pkt
  | close | setOptKeepAliveTime =>
    simp only [sesUses, SesCall.uses, SesSpares]
    split
    · next missing => exact ⟨fun _ => missing, fun _ => rfl⟩
    next session found =>
    rw [found]
    exact ⟨nofun, nofun⟩
  | resendTimeOut =>
    simp only [sesUses, SesCall.uses, SesSpares]
    split
    · next missing =>
      rw [missing]
      exact ⟨nofun, fun _ => rfl⟩
    next session found =>
    rw [found]
    simp only [Option.mem_some_iff, forall_eq']
    split
    · next gives => exact ⟨nofun, fun stays =>
        absurd gives.2 (BitVec.not_le.mpr (stays gives.1))⟩
    · next stays => exact ⟨fun _ stored =>
        BitVec.not_le.mp fun many => stays ⟨stored, many⟩, fun _ => rfl⟩
  | keepAliveTimeOut =>
    simp only [sesUses, SesCall.uses, SesSpares]
    split
    · next missing =>
      rw [missing]
      exact ⟨nofun, fun _ => rfl⟩
    next session found =>
    rw [found]
    simp only [Option.mem_some_iff, forall_eq', kaKeepAlive]
    split
    · next many => exact ⟨nofun, fun few =>
        absurd many (BitVec.not_le.mpr few)⟩
    · next few => exact ⟨fun _ => BitVec.not_le.mp few, fun _ => rfl⟩
  | connect | sendPkt | setDftKeepAlive => exact ⟨fun _ => trivial, fun _ => rfl⟩

theorem sesUses_first (clean : SesClean ctrl) (label : SesOutcome × SesCall) :
    sesUses ctrl label = [] ∨ ∃ ka ∈ sesUses ctrl label, ka.hVClockInstance = false := by
  obtain ⟨outcome, call⟩ := label
  have stored (uiSesID : UINT) (session : SesNode) (found : ctrl.hNap uiSesID = some session) :
      session.stKeepAliveOpt.hVClockInstance = false := clean.unattached uiSesID session found
  have first {ka : Ka} (rest : List Ka) (unattached : ka.hVClockInstance = false) :
      ∃ used ∈ ka :: rest, used.hVClockInstance = false :=
    ⟨ka, List.mem_cons_self, unattached⟩
  have newUses : sesNewUses outcome = [] ∨ ∃ ka ∈ sesNewUses outcome, ka.hVClockInstance = false := by
    unfold sesNewUses
    split
    · exact .inl rfl
    split
    · exact .inl rfl
    · exact .inr (first [] rfl)
  cases call with
  | createClient => exact newUses
  | close uiSesID =>
    simp only [sesUses, SesCall.uses]
    split
    · exact .inl rfl
    · next session found => exact .inr (first [] (stored uiSesID session found))
  | setOptKeepAliveTime uiSesID =>
    simp only [sesUses, SesCall.uses]
    split
    · exact .inl rfl
    · next session found => exact .inr (first [] (stored uiSesID session found))
  | resendTimeOut uiSesID =>
    simp only [sesUses, SesCall.uses]
    split
    · exact .inl rfl
    next session found =>
    split
    · exact .inr (first [] (stored uiSesID session found))
    · exact .inl rfl
  | keepAliveTimeOut uiSesID =>
    simp only [sesUses, SesCall.uses]
    split
    · exact .inl rfl
    next session found =>
    split
    · exact .inr (first [] ((kaKeepAlive_attached _).trans (stored uiSesID session found)))
    · exact .inl rfl
  | pktInput =>
    simp only [sesUses, SesCall.uses, sesPktUses]
    split
    · exact .inl rfl
    split
    · split
      · exact .inl rfl
      · next session found =>
        exact .inr (first [] (stored _ session (sesFindSesNode_eq_some.mp found).1))
    split
    · unfold sesSynUses
      split
      · exact .inl rfl
      rcases newUses with none | ⟨ka, used, unattached⟩
      · rw [none, List.nil_append]
        split
        · exact .inl rfl
        simp only
        split
        · exact .inr (first [] rfl)
        · exact .inl rfl
      · exact .inr ⟨ka, List.mem_append_left _ used, unattached⟩
    split
    · exact .inl rfl
    · next session found =>
      exact .inr (first _ (stored _ session (sesFindSesNode_eq_some.mp found).1))
  | connect | sendPkt | setDftKeepAlive => exact .inl rfl

theorem change_unattached {uiSesID : UINT} {packets : List SesPkt} {last : SesNode}
    (change : Change ctrl call uiSesID session packets last)
    (unmatched : ∀ pkt, call = .pktInput pkt → pkt.stPktHeader.has sesPktFlagData = false →
      sesFindSesNode ctrl pkt.stPktHeader = none)
    (unattached : session.attached = false) : last.attached = false := by
  cases change with
  | take pkt _ arrives _ found protocol =>
    rw [unmatched pkt arrives protocol] at found
    cases found
  | stay | connect | connectFailed | sendData | resend | unsent | quit | probe | refuse =>
    exact unattached

theorem SesClean.next (clean : SesClean ctrl) {label : SesOutcome × SesCall}
    (enabled : sesEnabled ctrl label) (spares : SesSpares ctrl label) :
    SesClean (sesUseNext ctrl label) := by
  obtain ⟨outcome, call⟩ := label
  by_cases broken : ∃ pkt, call = .pktInput pkt ∧ outcome.makeContinue = false
  · obtain ⟨pkt, rfl, discontinuous⟩ := broken
    have same : sesUseNext ctrl (outcome, .pktInput pkt) = ctrl := by
      simp only [sesUseNext, SesCall.run, sesPktInput, discontinuous]
      rfl
    rw [same]
    exact clean
  have unmatched (pkt : SesPkt) (arrives : call = .pktInput pkt)
      (_ : pkt.stPktHeader.has sesPktFlagData = false) :
      sesFindSesNode ctrl pkt.stPktHeader = none := by
    by_cases dst : pkt.stPktHeader.uiDstSesId = 0
    · exact sesFindSesNode_zero clean.localsOk dst
    subst arrives
    have continuous : outcome.makeContinue = true := by
      rw [← Bool.not_eq_false]
      exact fun discontinuous => broken ⟨pkt, rfl, discontinuous⟩
    have found := spares continuous
    rw [if_neg fun both => dst both.2] at found
    exact found
  obtain ⟨_, packets, later, moves⟩ := SesCall.moving clean.localsOk enabled
  refine ⟨moves.localsOk clean.localsOk, fun uiSesID session found => ?_⟩
  have sessions : (sesUseNext ctrl (outcome, call)).hNap = _ := moves.sessions
  rw [sessions, Function.update_apply] at found
  split at found
  · next same =>
    subst same
    cases moves.turn with
    | rest | unmatched => exact clean.unattached uiSesID session found
    | change before _ _ _ stored change core =>
      cases found
      rw [core_attached core]
      exact change_unattached change unmatched (clean.unattached uiSesID before stored)
    | close => cases found
    | create => cases found; rfl
    | accept _ _ _ _ _ _ _ _ _ _ _ core =>
      cases found
      exact core_attached core
  · exact clean.unattached uiSesID session found

theorem ses_attached_iff {labels : List (SesOutcome × SesCall)}
    (admitted : Lib.System.Admitted sesEnabled sesUseNext sesCreateInstance labels) :
    (∀ ka ∈ usesOf sesUseNext sesUses sesCreateInstance labels, ka.hVClockInstance = true) ↔
      Lib.System.Admitted SesSpares sesUseNext sesCreateInstance labels := by
  have start : SesClean sesCreateInstance := ⟨nofun, nofun⟩
  exact usesOf_attached_iff (fun ctrl label _ => sesUses_nil_iff ctrl label)
    (fun _ label clean _ => sesUses_first clean label)
    (fun ctrl label clean enabled none =>
      clean.next enabled ((sesUses_nil_iff ctrl label).mp none)) start admitted

end MyCode.Ses

namespace MyCode.KeepAlive

open Tp Ses

/-- A run uses attached keep-alives only if it uses none: every keep-alive is
reset before it is started. -/
theorem uses_attached_iff {tpLabels : List (TpOutcome × Bool × TpCall)}
    {sesLabels : List (SesOutcome × SesCall)}
    (tpAdmitted : Lib.System.Admitted tpEnabled tpUseNext tpCreate tpLabels)
    (sesAdmitted : Lib.System.Admitted sesEnabled sesUseNext sesCreateInstance sesLabels) :
    ((∀ ka ∈ usesOf tpUseNext tpUses tpCreate tpLabels, ka.hVClockInstance = true) ↔
      Lib.System.Admitted TpSpares tpUseNext tpCreate tpLabels) ∧
    ((∀ ka ∈ usesOf sesUseNext sesUses sesCreateInstance sesLabels, ka.hVClockInstance = true) ↔
      Lib.System.Admitted SesSpares sesUseNext sesCreateInstance sesLabels) :=
  ⟨tp_attached_iff tpAdmitted, ses_attached_iff sesAdmitted⟩

def tpConnectLabels : List (TpOutcome × Bool × TpCall) :=
  [(tpOutcomeOk (some 0x80000000), true, .socket .conn),
    (tpOutcomeOk none, true, .connect 0x80000000 5)]

def sesConnectLabels : List (SesOutcome × SesCall) :=
  [(sesOutcomeOk (some 0x80000001), .createClient), (sesOutcomeOk none, .connect 0x80000001)]

theorem uses_attached_iff_connect :
    ((∀ ka ∈ usesOf tpUseNext tpUses tpCreate tpConnectLabels, ka.hVClockInstance = true) ↔
      Lib.System.Admitted TpSpares tpUseNext tpCreate tpConnectLabels) ∧
    ((∀ ka ∈ usesOf sesUseNext sesUses sesCreateInstance sesConnectLabels,
        ka.hVClockInstance = true) ↔
      Lib.System.Admitted SesSpares sesUseNext sesCreateInstance sesConnectLabels) :=
  uses_attached_iff (by decide +kernel) (by decide +kernel)

/-- The answer to a connect is the first packet of a connection. -/
theorem uses_unattached :
    (∃ labels, Lib.System.Admitted tpEnabled tpUseNext tpCreate labels ∧
      ∃ ka ∈ usesOf tpUseNext tpUses tpCreate labels, ka.hVClockInstance = false) ∧
    (∃ labels, Lib.System.Admitted sesEnabled sesUseNext sesCreateInstance labels ∧
      ∃ ka ∈ usesOf sesUseNext sesUses sesCreateInstance labels, ka.hVClockInstance = false) := by
  constructor
  · refine ⟨tpConnectLabels ++ [(tpOutcomeOk none, true, .pktInput tpSynAckPkt)], ?_, ?_⟩ <;>
      decide +kernel
  refine ⟨sesConnectLabels ++ [(sesOutcomeOk none, .pktInput
    ⟨⟨sesPktFlagSyn ||| sesPktFlagAck, 0x80000001, 0x80000002, 7⟩, []⟩)], ?_, ?_⟩ <;>
    decide +kernel

end MyCode.KeepAlive
