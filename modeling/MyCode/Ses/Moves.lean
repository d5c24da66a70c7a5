import MyCode.Ses.Effect

/-!
# The calls as changes of one session

A call changes one session at most and sends packets.
-/

namespace MyCode.Ses

open KeepAlive Function List Option Bool

variable {ctrl ctrlAfter : SesCtrl} {outcome : SesOutcome} {call : SesCall} {uiSesID : UINT}
  {session last : SesNode} {pkt : SesPkt} {head : SesPktHead} {packets : List SesPkt}
  {after : SesWork}

/-- One side gives up: it closes the session, has resent often enough or has no
answer to its keep-alives. -/
def SesCall.quits (ctrl : SesCtrl) (call : SesCall) (uiSesID : UINT) : Bool :=
  match call with
  | close closed => closed == uiSesID && (ctrl.hNap uiSesID).isSome
  | resendTimeOut timed => timed == uiSesID && (ctrl.hNap uiSesID).any fun session =>
    session.pstSendMbuf.isSome && decide (sesDftPktResendCountMax ≤ session.usResendCount)
  | keepAliveTimeOut timed => timed == uiSesID && (ctrl.hNap uiSesID).any fun session =>
    (kaKeepAlive session.stKeepAliveOpt).2
  | _ => false

/-- What a call does to a session that is there, and the packets that it sends. -/
inductive Change (ctrl : SesCtrl) (call : SesCall) (uiSesID : UINT) (session : SesNode) :
    List SesPkt → SesNode → Prop where
  | stay : Change ctrl call uiSesID session [] session
  | connect (packets : List SesPkt) :
      call = .connect uiSesID →
      (∀ mbuf ∈ packets, mbuf = sesBuildProtocolPkt session sesPktFlagSyn) →
      Change ctrl call uiSesID session packets { session with
        uiStatus := .synSend
        pstSendMbuf := some (sesBuildProtocolPkt session sesPktFlagSyn)
        hResendTimer := true }
  | connectFailed :
      call = .connect uiSesID →
      session.hResendTimer = false →
      Change ctrl call uiSesID session [] { session with uiStatus := .synSend }
  | sendData (data : List UCHAR) :
      session.uiStatus = .establish →
      Change ctrl call uiSesID session [⟨sesFillPktHeader session sesPktFlagData, data⟩] session
  | resend (mbuf : SesPkt) (packets : List SesPkt) :
      session.hResendTimer = true →
      session.pstSendMbuf = some mbuf →
      (∀ other ∈ packets, other = mbuf) →
      Change ctrl call uiSesID session packets session
  | unsent :
      session.pstSendMbuf = none →
      Change ctrl call uiSesID session [] { session with hResendTimer := false }
  | quit :
      call.quits ctrl uiSesID = true →
      Change ctrl call uiSesID session [] session.aborted
  | probe (packets : List SesPkt) :
      session.attached = true →
      (∀ mbuf ∈ packets, mbuf = sesBuildProtocolPkt session sesPktFlagKeepAlive) →
      Change ctrl call uiSesID session packets session
  | refuse (pkt : SesPkt) (packets : List SesPkt) :
      call = .pktInput pkt →
      sesFindSesNode ctrl pkt.stPktHeader = some session →
      pkt.stPktHeader.has sesPktFlagData = false →
      pkt.stPktHeader.has sesPktFlagSyn = true →
      session.uiStatus ≠ .synSend →
      (∀ mbuf ∈ packets, mbuf = sesBuildRstPkt pkt.stPktHeader) →
      Change ctrl call uiSesID session packets session
  | take (pkt : SesPkt) (packets : List SesPkt) :
      call = .pktInput pkt →
      pkt.stPktHeader.uiDstSesId = uiSesID →
      sesFindSesNode ctrl pkt.stPktHeader = some session →
      pkt.stPktHeader.has sesPktFlagData = false →
      (pkt.stPktHeader.has sesPktFlagSyn = true → session.uiStatus = .synSend) →
      (∀ mbuf ∈ packets,
        mbuf = sesBuildProtocolPkt (session.learned pkt.stPktHeader) sesPktFlagAck ∧
          (pkt.stPktHeader.has sesPktFlagSyn = true ∨
            pkt.stPktHeader.has sesPktFlagKeepAlive = true)) →
      Change ctrl call uiSesID session packets (session.taken pkt.stPktHeader)

def Unmatched (ctrl : SesCtrl) (head : SesPktHead) : Prop :=
  sesFindSesNode ctrl head = none ∧
    (head.uiDstSesId ≠ 0 → head.has sesPktFlagData = false → head.has sesPktFlagRst = false)

/-- The session that `ses_SynInput` makes, before it answers. -/
def sesHalfOpen (ctrl : SesCtrl) (uiSesID : UINT) (head : SesPktHead) : SesNode :=
  { sesNewSes ctrl uiSesID with
    uiPeerSesID := head.uiSrcSesId, uiStatus := .synRcvd, uiCookie := ctrl.uiCookie }

def sesAnswer (ctrl : SesCtrl) (uiSesID : UINT) (head : SesPktHead) : SesPkt :=
  sesBuildProtocolPkt (sesHalfOpen ctrl uiSesID head) (sesPktFlagSyn ||| sesPktFlagAck)

/-- The session that `ses_SynInput` makes. -/
def sesAccepted (ctrl : SesCtrl) (uiSesID : UINT) (head : SesPktHead) : SesNode :=
  { sesHalfOpen ctrl uiSesID head with
    pstSendMbuf := some (sesAnswer ctrl uiSesID head), hResendTimer := true }

/-- The session that `SES_CreateClient` makes. -/
def sesClient (ctrl : SesCtrl) (uiSesID : UINT) : SesNode :=
  { sesNewSes ctrl uiSesID with uiFlag := 0 ||| sesNodeFlagIsConnecter }

/-- What a call does to one id, and the packets that it sends. -/
inductive Turn (outcome : SesOutcome) (ctrl : SesCtrl) (call : SesCall) (uiSesID : UINT) :
    List SesPkt → Option SesNode → Prop where
  | rest : Turn outcome ctrl call uiSesID [] (ctrl.hNap uiSesID)
  | change (session last later : SesNode) (packets : List SesPkt) :
      ctrl.hNap uiSesID = some session →
      Change ctrl call uiSesID session packets last →
      later.core = last.core →
      Turn outcome ctrl call uiSesID packets (some later)
  | close :
      call = .close uiSesID →
      Turn outcome ctrl call uiSesID [] none
  | create :
      outcome.sesAlloc = some uiSesID →
      ctrl.hNap uiSesID = none →
      uiSesID ≠ 0 →
      Turn outcome ctrl call uiSesID [] (some (sesClient ctrl uiSesID))
  | accept (pkt : SesPkt) (later : SesNode) (packets : List SesPkt) :
      call = .pktInput pkt →
      pkt.stPktHeader.has sesPktFlagData = false →
      pkt.stPktHeader.uiDstSesId = 0 →
      pkt.stPktHeader.has sesPktFlagSyn = true →
      outcome.sesAlloc = some uiSesID →
      ctrl.hNap uiSesID = none →
      uiSesID ≠ 0 →
      (∀ mbuf ∈ packets, mbuf = sesAnswer ctrl uiSesID pkt.stPktHeader) →
      later.core = (sesAccepted ctrl uiSesID pkt.stPktHeader).core →
      Turn outcome ctrl call uiSesID packets (some later)
  | unmatched (pkt : SesPkt) (packets : List SesPkt) :
      call = .pktInput pkt →
      Unmatched ctrl pkt.stPktHeader →
      (∀ mbuf ∈ packets, mbuf = sesBuildRstPkt pkt.stPktHeader) →
      Turn outcome ctrl call uiSesID packets (ctrl.hNap uiSesID)

def SesCall.handsOver (outcome : SesOutcome) (ctrl : SesCtrl) (call : SesCall) : List SesRecv :=
  match call with
  | pktInput pkt =>
    if outcome.makeContinue && pkt.stPktHeader.has sesPktFlagData then
      ((sesFindSesNode ctrl pkt.stPktHeader).map fun session =>
        ⟨sesRefreshKeepAlive session, pkt⟩).toList
    else
      []
  | _ => []

structure Moves (outcome : SesOutcome) (ctrl : SesCtrl) (call : SesCall) (uiSesID : UINT)
    (packets : List SesPkt) (later : Option SesNode) (ctrlAfter : SesCtrl) : Prop where
  turn : Turn outcome ctrl call uiSesID packets later
  sessions : ctrlAfter.hNap = update ctrl.hNap uiSesID later
  sent : ctrlAfter.sent = ctrl.sent ++ packets
  recved : ctrlAfter.recved = ctrl.recved ++ call.handsOver outcome ctrl

def LocalsOk (ctrl : SesCtrl) : Prop :=
  ∀ uiSesID session, ctrl.hNap uiSesID = some session →
    session.uiLocalSesID = uiSesID ∧ uiSesID ≠ 0

def Moving (outcome : SesOutcome) (ctrl : SesCtrl) (call : SesCall) (ctrlAfter : SesCtrl) : Prop :=
  ∃ uiSesID packets later, Moves outcome ctrl call uiSesID packets later ctrlAfter

theorem taken_local (session : SesNode) (head : SesPktHead) :
    (session.taken head).uiLocalSesID = session.uiLocalSesID := by
  rw [← learned_local session head]
  unfold SesNode.taken
  simp only
  split <;> split <;> rfl

theorem Change.local_eq (change : Change ctrl call uiSesID session packets last) :
    last.uiLocalSesID = session.uiLocalSesID := by
  cases change with
  | take pkt => exact taken_local session pkt.stPktHeader
  | stay | connect | connectFailed | sendData | resend | unsent | quit | probe | refuse => rfl

section

variable (silent : call.handsOver outcome ctrl = [])

include silent in
theorem Moving.rest (hNap : ctrlAfter.hNap = ctrl.hNap) (sent : ctrlAfter.sent = ctrl.sent)
    (recved : ctrlAfter.recved = ctrl.recved) :
    Moving outcome ctrl call ctrlAfter := by
  refine ⟨0, [], ctrl.hNap 0, .rest, ?_, ?_, ?_⟩
  · rw [hNap, update_eq_self]
  · rw [sent, append_nil]
  · rw [recved, silent, append_nil]

variable (found : ctrl.hNap uiSesID = some session) (localsOk : LocalsOk ctrl)

include silent found localsOk in
theorem Moving.of_effect {start : SesNode} (effect : Effect ⟨ctrl, start⟩ after last packets)
    (change : Change ctrl call uiSesID session packets last) :
    Moving outcome ctrl call after.store := by
  refine ⟨uiSesID, packets, some after.session,
    .change session last after.session packets found change effect.core, ?_, ?_, ?_⟩
  · have isLocal : after.session.uiLocalSesID = uiSesID := by
      rw [core_local effect.core, change.local_eq]
      exact (localsOk uiSesID session found).1
    simp [SesWork.store, SesCtrl.setSession, isLocal, effect.sessions]
  · exact effect.sent
  · rw [silent, append_nil]
    exact effect.recved

include silent found localsOk in
theorem Moving.of_core {later : SesNode} (same : later.core = session.core) :
    Moving outcome ctrl call (ctrl.setSession later) := by
  have effect : Effect ⟨ctrl, session⟩ ⟨ctrl, later⟩ session [] := .of_session same rfl
  exact .of_effect silent found localsOk effect .stay

theorem sesNewID_alloc (alloc : sesNewID outcome = some uiSesID) :
    outcome.sesAlloc = some uiSesID := by
  unfold sesNewID at alloc
  split at alloc
  · exact alloc
  · cases alloc

theorem sesCreateClient_moving
    (fresh : ∀ uiSesID ∈ outcome.sesAlloc, uiSesID ≠ 0 ∧ ctrl.hNap uiSesID = none) :
    Moving outcome ctrl .createClient (sesCreateClient outcome ctrl).1 := by
  unfold sesCreateClient
  split
  · exact .rest rfl rfl rfl rfl
  next uiSesID allocated =>
  have alloc := sesNewID_alloc allocated
  obtain ⟨nonzero, absent⟩ := fresh uiSesID alloc
  exact ⟨uiSesID, [], _, .create alloc absent nonzero, rfl, (append_nil _).symm,
    (append_nil _).symm⟩

theorem sesClose_moving (ctrl : SesCtrl) (uiSesID : UINT) :
    Moving outcome ctrl (.close uiSesID) (sesClose ctrl uiSesID) := by
  unfold sesClose
  split
  · exact .rest rfl rfl rfl rfl
  · exact ⟨uiSesID, [], none, .close rfl, rfl, (append_nil _).symm, (append_nil _).symm⟩

theorem sesConnect_moving (localsOk : LocalsOk ctrl) (uiSesID : UINT) :
    Moving outcome ctrl (.connect uiSesID) (sesConnect outcome ctrl uiSesID).1 := by
  unfold sesConnect
  split
  · exact .rest rfl rfl rfl rfl
  next session found =>
  simp only [sesSendSyn]
  split
  · exact .of_core rfl found localsOk rfl
  rcases sesRecordAndSendPkt_effect outcome ⟨ctrl, { session with uiStatus := .synSend }⟩
    (sesBuildProtocolPkt session sesPktFlagSyn) with ⟨failed, stopped⟩ | ⟨-, packets, effect, all⟩
  · rw [failed]
    exact .of_effect rfl found localsOk (.of_session rfl rfl) (.connectFailed rfl stopped)
  · exact .of_effect rfl found localsOk effect (.connect packets rfl all)

theorem sesSendData_moving (ctrl : SesCtrl) (uiSesID : UINT) (data : List UCHAR) :
    Moving outcome ctrl (.sendPkt uiSesID data) (sesSendData outcome ctrl uiSesID data).1 := by
  unfold sesSendData
  split
  · exact .rest rfl rfl rfl rfl
  split
  · exact .rest rfl rfl rfl rfl
  split
  · exact .rest rfl rfl rfl rfl
  split
  · exact .rest rfl rfl rfl rfl
  next session found established _ _ =>
  refine ⟨uiSesID, _, some session, .change session session session _ found
    (.sendData data (not_not.mp established)) rfl, ?_, rfl, (append_nil _).symm⟩
  rw [← found, update_eq_self]
  rfl

theorem sesSetOptKeepAliveTime_moving (localsOk : LocalsOk ctrl) (uiSesID : UINT)
    (pstKeepAlive : SesKeepAliveTime) :
    Moving outcome ctrl (.setOptKeepAliveTime uiSesID pstKeepAlive)
      (sesSetOptKeepAliveTime ctrl uiSesID pstKeepAlive).1 := by
  unfold sesSetOptKeepAliveTime
  split
  · exact .rest rfl rfl rfl rfl
  · next session found =>
    exact .of_core rfl found localsOk (keepAlive_core (kaReset_attached _))

include found localsOk in
theorem sesResendTimeOut_moving (running : session.hResendTimer = true) :
    Moving outcome ctrl (.resendTimeOut uiSesID) (sesResendTimeOut outcome ⟨ctrl, session⟩).store := by
  unfold sesResendTimeOut
  split
  · next noMbuf => exact .of_effect rfl found localsOk (.of_session rfl rfl) (.unsent noMbuf)
  next mbuf stored =>
  split
  · next many =>
    refine .of_effect rfl found localsOk (.of_session (sesAbort_core session) rfl) (.quit ?_)
    have quits := decide_eq_true many
    simp only [SesCall.quits, found, any_some, beq_self_eq_true, Bool.true_and, quits,
      Bool.and_true]
    exact isSome_of_eq_some stored
  obtain ⟨packets, effect, all⟩ := sendWhen_effect outcome.rawCopy
    ⟨ctrl, { session with usResendCount := session.usResendCount + 1 }⟩ mbuf
  have same : ({ session with usResendCount := session.usResendCount + 1 } : SesNode).core =
      session.core := rfl
  exact .of_effect rfl found localsOk (effect.congr same)
    (.resend mbuf packets running stored all)

include found localsOk in
theorem sesKeepAlive_moving (attached : session.attached = true) :
    Moving outcome ctrl (.keepAliveTimeOut uiSesID) (sesKeepAlive outcome ⟨ctrl, session⟩).store := by
  have same : ({ session with stKeepAliveOpt := (kaKeepAlive session.stKeepAliveOpt).1 } :
      SesNode).core = session.core := keepAlive_core (kaKeepAlive_attached _)
  simp only [sesKeepAlive]
  split
  · next failed =>
    have aborts := (sesAbort_core _).trans (core_aborted same)
    refine .of_effect rfl found localsOk (.of_session aborts rfl) (.quit ?_)
    simp only [SesCall.quits, found, any_some, beq_self_eq_true, Bool.true_and]
    exact failed
  obtain ⟨packets, effect, all⟩ := sendWhen_effect outcome.buildPkt
    ⟨ctrl, { session with stKeepAliveOpt := (kaKeepAlive session.stKeepAliveOpt).1 }⟩
    (sesBuildProtocolPkt { session with
      stKeepAliveOpt := (kaKeepAlive session.stKeepAliveOpt).1 } sesPktFlagKeepAlive)
  exact .of_effect rfl found localsOk (effect.congr same) (.probe packets attached all)

theorem sesFindSesNode_eq_some : sesFindSesNode ctrl head = some session ↔
    ctrl.hNap head.uiDstSesId = some session ∧
      (session.uiPeerSesID ≠ 0 → session.uiPeerSesID = head.uiSrcSesId) ∧
      (session.uiStatus ≠ .synSend → session.uiCookie = head.uiCookie) ∧
      session.uiStatus ≠ .closed := by
  unfold sesFindSesNode
  constructor
  · intro found
    split at found
    · cases found
    split at found
    · cases found
    split at found
    · cases found
    split at found
    · cases found
    next stored isStored peer cookie opened =>
    cases found
    refine ⟨isStored, fun nonzero => ?_, fun status => ?_, opened⟩
    · exact by_contra fun other => peer ⟨nonzero, other⟩
    · exact by_contra fun other => cookie ⟨status, other⟩
  · rintro ⟨stored, peer, cookie, opened⟩
    simp only [stored]
    rw [if_neg fun both => both.2 (peer both.1), if_neg fun both => both.2 (cookie both.1),
      if_neg opened]

theorem sesFindSesNode_zero (localsOk : LocalsOk ctrl) (dst : head.uiDstSesId = 0) :
    sesFindSesNode ctrl head = none := by
  cases found : sesFindSesNode ctrl head with
  | none => rfl
  | some session =>
    have stored := (sesFindSesNode_eq_some.mp found).1
    exact absurd dst (localsOk _ session stored).2

theorem handsOver_protocol (protocol : pkt.stPktHeader.has sesPktFlagData = false) :
    (SesCall.pktInput pkt).handsOver outcome ctrl = [] := by
  simp [SesCall.handsOver, protocol, false_eq_true]

theorem sesSendRst_moving (unmatched : Unmatched ctrl pkt.stPktHeader)
    (silent : (SesCall.pktInput pkt).handsOver outcome ctrl = []) :
    Moving outcome ctrl (.pktInput pkt) (sesSendRst outcome ctrl pkt.stPktHeader) := by
  obtain ⟨packets, sent, all⟩ : ∃ packets,
      (sesSendRst outcome ctrl pkt.stPktHeader).sent = ctrl.sent ++ packets ∧
        ∀ mbuf ∈ packets, mbuf = sesBuildRstPkt pkt.stPktHeader := by
    unfold sesSendRst
    split
    · exact ⟨[_], rfl, fun mbuf inside => mem_singleton.mp inside⟩
    · exact ⟨[], (append_nil _).symm, nofun⟩
  refine ⟨0, packets, ctrl.hNap 0, .unmatched pkt packets rfl unmatched all, ?_, sent, ?_⟩
  · rw [update_eq_self]
    unfold sesSendRst
    split <;> rfl
  · rw [silent, append_nil]
    unfold sesSendRst
    split <;> rfl

section

variable (localsOk : LocalsOk ctrl)

include localsOk

variable (fresh : ∀ uiSesID ∈ outcome.sesAlloc, uiSesID ≠ 0 ∧ ctrl.hNap uiSesID = none)
  (protocol : pkt.stPktHeader.has sesPktFlagData = false)

include fresh protocol in
theorem sesSynInput_moving (dst : pkt.stPktHeader.uiDstSesId = 0) :
    Moving outcome ctrl (.pktInput pkt) (sesSynInput outcome ctrl pkt.stPktHeader).1 := by
  have unmatched : Unmatched ctrl pkt.stPktHeader :=
    ⟨sesFindSesNode_zero localsOk dst, fun other => absurd dst other⟩
  have silent := @handsOver_protocol ctrl outcome pkt protocol
  unfold sesSynInput
  split
  · exact sesSendRst_moving unmatched silent
  split
  · exact sesSendRst_moving unmatched silent
  next syn _ uiSesID allocated =>
  have alloc := sesNewID_alloc allocated
  obtain ⟨nonzero, absent⟩ := fresh uiSesID alloc
  have gone (session : SesNode) (isLocal : session.uiLocalSesID = uiSesID) :
      (sesFreeSes (SesCtrl.setSession { ctrl with uiCookie := ctrl.uiCookie + 1 } session)
        uiSesID).hNap = ctrl.hNap := by
    simp only [sesFreeSes, SesCtrl.setSession, isLocal, update_idem]
    rw [← absent, update_eq_self]
  have answered := sesSendSynAck_effect outcome
    ⟨{ ctrl with uiCookie := ctrl.uiCookie + 1 }, sesHalfOpen ctrl uiSesID pkt.stPktHeader⟩
  simp only
  split
  · next failed =>
    rcases answered with ⟨-, same⟩ | ⟨done, -⟩
    · unfold sesHalfOpen at same
      rw [same]
      exact .rest silent (gone _ rfl) rfl rfl
    · exact absurd done failed
  next done =>
  rcases answered with ⟨failed, -⟩ | ⟨-, packets, effect, all⟩
  · exact absurd failed done
  refine ⟨uiSesID, packets, _, .accept pkt _ packets rfl protocol dst ?_ alloc absent nonzero
    all effect.core, ?_, effect.sent, ?_⟩
  · rw [← not_eq_false]
    exact fun unset => syn (by rw [unset]; rfl)
  · have isLocal := core_local effect.core
    exact congrArg₂ (fun sessions uiSesID => update sessions uiSesID (some _))
      effect.sessions isLocal
  · rw [silent, append_nil]
    exact effect.recved

include fresh protocol in
theorem sesProtocolPktIn_moving :
    Moving outcome ctrl (.pktInput pkt) (sesProtocolPktIn outcome ctrl pkt.stPktHeader).1 := by
  have silent := @handsOver_protocol ctrl outcome pkt protocol
  unfold sesProtocolPktIn
  split
  · next dst => exact sesSynInput_moving localsOk fresh protocol dst
  split
  · next missing =>
    split
    · next noRst => exact sesSendRst_moving ⟨missing, fun _ _ => by simpa using noRst⟩ silent
    · exact .rest silent rfl rfl rfl
  next session found =>
  have stored := sesFindSesNode_eq_some.mp found
  have refreshed := sesRefreshKeepAlive_core session
  have status := core_status refreshed
  simp only [status]
  split
  · next refused =>
    obtain ⟨syn, other⟩ := refused
    have rst : ∃ packets, (sesSendRst outcome (ctrl.setSession (sesRefreshKeepAlive session))
        pkt.stPktHeader) = ({ ctrl.setSession (sesRefreshKeepAlive session) with
          sent := ctrl.sent ++ packets } : SesCtrl) ∧
        ∀ mbuf ∈ packets, mbuf = sesBuildRstPkt pkt.stPktHeader := by
      unfold sesSendRst
      split
      · exact ⟨[_], rfl, fun mbuf inside => mem_singleton.mp inside⟩
      refine ⟨[], ?_, nofun⟩
      rw [append_nil]
      rfl
    obtain ⟨packets, sent, all⟩ := rst
    rw [sent]
    have effect : Effect ⟨ctrl, session⟩
        ⟨{ ctrl with sent := ctrl.sent ++ packets }, sesRefreshKeepAlive session⟩ session packets :=
      ⟨refreshed, rfl, rfl, rfl⟩
    exact .of_effect silent stored.1 localsOk effect
      (.refuse pkt packets rfl found protocol syn other all)
  next allowed =>
  obtain ⟨packets, effect, all⟩ := sesFlagsIn_effect outcome pkt.stPktHeader
    ⟨ctrl, sesRefreshKeepAlive session⟩ (by rw [status]; exact stored.2.2.2)
  have learned := sesBuildProtocolPkt_core (core_learned refreshed pkt.stPktHeader) sesPktFlagAck
  refine .of_effect silent stored.1 localsOk
    (effect.congr (core_taken refreshed pkt.stPktHeader))
    (.take pkt packets rfl rfl found protocol ?_ ?_)
  · exact fun syn => by_contra fun other => allowed ⟨syn, other⟩
  intro mbuf inside
  rw [← learned]
  exact all mbuf inside

theorem sesDataIn_moving (continuous : outcome.makeContinue = true)
    (data : pkt.stPktHeader.has sesPktFlagData = true) :
    Moving outcome ctrl (.pktInput pkt) (sesDataIn outcome ctrl pkt).1 := by
  unfold sesDataIn
  split
  · next missing =>
    refine sesSendRst_moving ⟨missing, fun _ protocol => ?_⟩ ?_
    · rw [data] at protocol
      cases protocol
    · simp only [SesCall.handsOver, missing, continuous, data]
      rfl
  next session found =>
  have stored := sesFindSesNode_eq_some.mp found
  have refreshed := sesRefreshKeepAlive_core session
  refine ⟨pkt.stPktHeader.uiDstSesId, [], some (sesRefreshKeepAlive session),
    .change session session _ [] stored.1 .stay refreshed, ?_, (append_nil _).symm, ?_⟩
  · have isLocal := (core_local refreshed).trans (localsOk _ session stored.1).1
    simp [SesCtrl.setSession, isLocal]
  · simp only [SesCall.handsOver, found, continuous, data]
    rfl

include fresh in
theorem sesPktInput_moving (pkt : SesPkt) :
    Moving outcome ctrl (.pktInput pkt) (sesPktInput outcome ctrl pkt).1 := by
  unfold sesPktInput
  split
  · next broken =>
    refine .rest ?_ rfl rfl rfl
    simp only [not_eq_true'] at broken
    simp [SesCall.handsOver, broken, false_eq_true]
  next continuous =>
  split
  · next data => exact sesDataIn_moving localsOk (by simpa using continuous) data
  · next protocol =>
    exact sesProtocolPktIn_moving localsOk fresh (eq_false_iff.mpr protocol)

theorem SesCall.moving (enabled : call.Enabled outcome ctrl) :
    Moving outcome ctrl call (call.run outcome ctrl) := by
  obtain ⟨fresh, timed⟩ := enabled
  cases call with
  | createClient => exact sesCreateClient_moving fresh
  | close uiSesID => exact sesClose_moving ctrl uiSesID
  | connect uiSesID => exact sesConnect_moving localsOk uiSesID
  | sendPkt uiSesID data => exact sesSendData_moving ctrl uiSesID data
  | setOptKeepAliveTime uiSesID pstKeepAlive =>
    exact sesSetOptKeepAliveTime_moving localsOk uiSesID pstKeepAlive
  | setDftKeepAlive => exact .rest rfl rfl rfl rfl
  | resendTimeOut =>
    obtain ⟨_, found, running⟩ := timed
    simp only [run, sesTimer, mem_def.mp found]
    exact sesResendTimeOut_moving found localsOk running
  | keepAliveTimeOut =>
    obtain ⟨_, found, attached, -⟩ := timed
    simp only [run, sesTimer, mem_def.mp found]
    exact sesKeepAlive_moving found localsOk attached
  | pktInput pkt => exact sesPktInput_moving localsOk fresh pkt

end

end

theorem Moves.localsOk {later : Option SesNode}
    (moves : Moves outcome ctrl call uiSesID packets later ctrlAfter) (localsOk : LocalsOk ctrl) :
    LocalsOk ctrlAfter := by
  intro other session found
  rw [moves.sessions, update_apply] at found
  split at found
  · next same =>
    subst same
    cases moves.turn with
    | rest | unmatched => exact localsOk other session found
    | change before _ _ _ stored change core =>
      cases found
      rw [core_local core, change.local_eq]
      exact localsOk other before stored
    | close => cases found
    | create _ _ nonzero =>
      cases found
      exact ⟨rfl, nonzero⟩
    | accept _ _ _ _ _ _ _ _ _ nonzero _ core =>
      cases found
      exact ⟨core_local core, nonzero⟩
  · exact localsOk other session found

theorem quits_isSome (quits : call.quits ctrl uiSesID = true) : (ctrl.hNap uiSesID).isSome := by
  have of_any {test : SesNode → Bool} (any : (ctrl.hNap uiSesID).any test = true) :
      (ctrl.hNap uiSesID).isSome := by
    cases found : ctrl.hNap uiSesID with
    | none =>
      rw [found] at any
      cases any
    | some => rfl
  cases call with
  | close => exact (and_eq_true_iff.mp quits).2
  | resendTimeOut => exact of_any (and_eq_true_iff.mp quits).2
  | keepAliveTimeOut => exact of_any (and_eq_true_iff.mp quits).2
  | createClient | connect | sendPkt | setOptKeepAliveTime | setDftKeepAlive | pktInput =>
    cases quits

theorem setSession_found {stored : SesNode} (isLocal : stored.uiLocalSesID = uiSesID)
    (found : (ctrl.setSession stored).hNap uiSesID = some session) : session = stored := by
  simp only [SesCtrl.setSession, isLocal, update_self, some.injEq] at found
  exact found.symm

theorem quits_closed (localsOk : LocalsOk ctrl) (quits : call.quits ctrl uiSesID = true)
    (found : (call.run outcome ctrl).hNap uiSesID = some session) : session.uiStatus = .closed := by
  obtain ⟨before, stored⟩ := isSome_iff_exists.mp (quits_isSome quits)
  have isLocal := (localsOk uiSesID before stored).1
  cases call with
  | close =>
    have same := beq_iff_eq.mp (and_eq_true_iff.mp quits).1
    subst same
    simp only [SesCall.run, sesClose, stored, sesFreeSes, update_self] at found
    cases found
  | resendTimeOut =>
    obtain ⟨isTimed, gives⟩ := and_eq_true_iff.mp quits
    have same := beq_iff_eq.mp isTimed
    subst same
    rw [stored, any_some, and_eq_true_iff] at gives
    obtain ⟨_, pending⟩ := isSome_iff_exists.mp gives.1
    simp only [SesCall.run, sesTimer, stored, sesResendTimeOut, pending,
      if_pos (of_decide_eq_true gives.2)] at found
    have aborted := sesAbort_core before
    rw [setSession_found ((core_local aborted).trans isLocal) found, core_status aborted]
    rfl
  | keepAliveTimeOut =>
    obtain ⟨isTimed, fails⟩ := and_eq_true_iff.mp quits
    have same := beq_iff_eq.mp isTimed
    subst same
    rw [stored, any_some] at fails
    simp only [SesCall.run, sesTimer, stored, sesKeepAlive, if_pos fails] at found
    have aborted := sesAbort_core { before with
      stKeepAliveOpt := (kaKeepAlive before.stKeepAliveOpt).1 }
    rw [setSession_found ((core_local aborted).trans isLocal) found, core_status aborted]
    rfl
  | createClient | connect | sendPkt | setOptKeepAliveTime | setDftKeepAlive | pktInput =>
    cases quits

end MyCode.Ses
