import MyCode.Ses.Session

/-!
# The effects of the functions on a session

Keep-alive settings and the count of resends do not influence the exchange of
packets, so sessions are compared by the other fields.  A function changes the
session in hand and sends packets.
-/

namespace MyCode.Ses

open KeepAlive List

variable {outcome : SesOutcome} {session last : SesNode} {head : SesPktHead} {packets : List SesPkt}
  {work after : SesWork}

/-- Whether the keep-alive is attached to a clock. -/
def SesNode.attached (session : SesNode) : Bool :=
  session.stKeepAliveOpt.hVClockInstance

/-- A session without its count of resends and the settings of its keep-alive. -/
def SesNode.core (session : SesNode) : SesNode :=
  { session with
    usResendCount := 0, stKeepAliveOpt := ⟨0, 0, 0, session.attached, 0, none⟩ }

/-- The session after `ses_Abort`. -/
def SesNode.aborted (session : SesNode) : SesNode :=
  { session with uiStatus := .closed, hResendTimer := false }

/-- The session after the flag `SYN`. -/
def SesNode.learned (session : SesNode) (head : SesPktHead) : SesNode :=
  if head.has sesPktFlagSyn then
    { session with uiPeerSesID := head.uiSrcSesId, uiCookie := head.uiCookie }
  else
    session

/-- Whether an `ACK` ends the handshake of the session. -/
def SesNode.Waits (session : SesNode) : Prop :=
  session.uiStatus = .synSend ∨ session.uiStatus = .synRcvd

instance (session : SesNode) : Decidable session.Waits :=
  inferInstanceAs (Decidable (_ ∨ _))

/-- The session after the end of the handshake. -/
def SesNode.established (session : SesNode) : SesNode :=
  { session with
    uiStatus := .establish, pstSendMbuf := none, hResendTimer := false
    stKeepAliveOpt.hVClockInstance := true }

/-- The session after a protocol packet that is not refused. -/
def SesNode.taken (session : SesNode) (head : SesPktHead) : SesNode :=
  let session := session.learned head
  let session := if head.has sesPktFlagAck ∧ session.Waits then session.established else session
  if head.has sesPktFlagRst then session.aborted else session

/-- The session in hand becomes like `last`, and the packets are sent. -/
structure Effect (work after : SesWork) (last : SesNode) (packets : List SesPkt) : Prop where
  core : after.session.core = last.core
  sessions : after.ctrl.hNap = work.ctrl.hNap
  recved : after.ctrl.recved = work.ctrl.recved
  sent : after.ctrl.sent = work.ctrl.sent ++ packets

theorem Effect.of_session (core : after.session.core = last.core) (same : after.ctrl = work.ctrl) :
    Effect work after last [] := by
  refine ⟨core, ?_, ?_, ?_⟩ <;> rw [same]
  exact (append_nil _).symm

theorem Effect.trans {middle : SesNode} {next : SesWork} {rest : List SesPkt}
    (first : Effect work after middle packets) (second : Effect after next last rest) :
    Effect work next last (packets ++ rest) := by
  refine ⟨second.core, ?_, ?_, ?_⟩
  · exact second.sessions.trans first.sessions
  · exact second.recved.trans first.recved
  · rw [second.sent, first.sent, append_assoc]

theorem Effect.congr {other : SesNode} (effect : Effect work after last packets)
    (same : last.core = other.core) : Effect work after other packets :=
  { effect with core := effect.core.trans same }

section Core

variable {other : SesNode} (same : session.core = other.core)

include same

theorem core_status : session.uiStatus = other.uiStatus := by
  change session.core.uiStatus = other.core.uiStatus
  rw [same]

theorem core_flag : session.uiFlag = other.uiFlag := by
  change session.core.uiFlag = other.core.uiFlag
  rw [same]

theorem core_local : session.uiLocalSesID = other.uiLocalSesID := by
  change session.core.uiLocalSesID = other.core.uiLocalSesID
  rw [same]

theorem core_peer : session.uiPeerSesID = other.uiPeerSesID := by
  change session.core.uiPeerSesID = other.core.uiPeerSesID
  rw [same]

theorem core_cookie : session.uiCookie = other.uiCookie := by
  change session.core.uiCookie = other.core.uiCookie
  rw [same]

theorem core_sendMbuf : session.pstSendMbuf = other.pstSendMbuf := by
  change session.core.pstSendMbuf = other.core.pstSendMbuf
  rw [same]

theorem core_resendTimer : session.hResendTimer = other.hResendTimer := by
  change session.core.hResendTimer = other.core.hResendTimer
  rw [same]

theorem core_attached : session.attached = other.attached := by
  change session.core.attached = other.core.attached
  rw [same]

theorem core_aborted : session.aborted.core = other.aborted.core :=
  congrArg (fun session : SesNode => { session with uiStatus := .closed, hResendTimer := false })
    same

theorem core_established : session.established.core = other.established.core :=
  congrArg (fun session : SesNode => { session with
    uiStatus := .establish, pstSendMbuf := none, hResendTimer := false
    stKeepAliveOpt.hVClockInstance := true }) same

theorem core_learned (head : SesPktHead) :
    (session.learned head).core = (other.learned head).core := by
  unfold SesNode.learned
  split
  · exact congrArg (fun session : SesNode => { session with
      uiPeerSesID := head.uiSrcSesId, uiCookie := head.uiCookie }) same
  · exact same

theorem core_waits : session.Waits ↔ other.Waits := by
  rw [SesNode.Waits, SesNode.Waits, core_status same]

theorem core_taken (head : SesPktHead) : (session.taken head).core = (other.taken head).core := by
  have learned := core_learned same head
  have acked : (if head.has sesPktFlagAck ∧ (session.learned head).Waits then
        (session.learned head).established else session.learned head).core =
      (if head.has sesPktFlagAck ∧ (other.learned head).Waits then
        (other.learned head).established else other.learned head).core := by
    simp only [core_waits learned]
    split
    · exact core_established learned
    · exact learned
  unfold SesNode.taken
  split
  · exact core_aborted acked
  · exact acked

theorem sesBuildProtocolPkt_core (usPktFlag : USHORT) :
    sesBuildProtocolPkt session usPktFlag = sesBuildProtocolPkt other usPktFlag := by
  simp [sesBuildProtocolPkt, sesFillPktHeader, core_peer same, core_local same, core_cookie same]

end Core

theorem kaReset_attached (ka : Ka) : (kaReset ka).hVClockInstance = ka.hVClockInstance := by
  unfold kaReset
  split <;> rfl

theorem kaKeepAlive_attached (ka : Ka) :
    (kaKeepAlive ka).1.hVClockInstance = ka.hVClockInstance := by
  unfold kaKeepAlive
  split <;> rfl

theorem kaStart_attached (ka : Ka) (addTimer : Bool) :
    (kaStart ka addTimer).1.hVClockInstance = true := by
  unfold kaStart
  simp only
  split
  · rfl
  · split <;> rfl

theorem keepAlive_core {ka : Ka} (same : ka.hVClockInstance = session.attached) :
    ({ session with stKeepAliveOpt := ka } : SesNode).core = session.core := by
  simp [SesNode.core, SesNode.attached, same]

theorem sesRefreshKeepAlive_core (session : SesNode) :
    (sesRefreshKeepAlive session).core = session.core :=
  keepAlive_core (kaReset_attached session.stKeepAliveOpt)

theorem sesAbort_core (session : SesNode) : (sesAbort session).core = session.aborted.core := by
  unfold sesAbort sesStopTimer
  cases timer : session.hResendTimer with
  | false =>
    simp [SesNode.core, SesNode.aborted, SesNode.attached, kaStop, timer]
  | true => rfl

theorem sesAck1Input_core (outcome : SesOutcome) (session : SesNode) :
    (sesAck1Input outcome session).core = session.established.core := by
  simp [sesAck1Input, sesClrSendBufBecauseAck, sesStopResenderTimer, sesStartKeepAliveTimer,
    SesNode.core, SesNode.attached, SesNode.established, kaStart_attached]

theorem sendWhen_effect (sends : Bool) (work : SesWork) (mbuf : SesPkt) :
    ∃ packets, Effect work (if sends then work.send mbuf else work) work.session packets ∧
      ∀ other ∈ packets, other = mbuf := by
  cases sends with
  | true => exact ⟨[mbuf], ⟨rfl, rfl, rfl, rfl⟩, fun other inside => mem_singleton.mp inside⟩
  | false => exact ⟨[], .of_session rfl rfl, nofun⟩

theorem sesRecordAndSendPkt_effect (outcome : SesOutcome) (work : SesWork) (mbuf : SesPkt) :
    (sesRecordAndSendPkt outcome work mbuf = (work, .err) ∧ work.session.hResendTimer = false) ∨
      ((sesRecordAndSendPkt outcome work mbuf).2 = .ok ∧
        ∃ packets, Effect work (sesRecordAndSendPkt outcome work mbuf).1
            { work.session with pstSendMbuf := some mbuf, hResendTimer := true } packets ∧
          ∀ other ∈ packets, other = mbuf) := by
  have sends (started : SesNode) (core : started.core =
      ({ work.session with pstSendMbuf := some mbuf, hResendTimer := true } : SesNode).core) :
      ∃ packets, Effect work (if outcome.rawCopy then SesWork.send ⟨work.ctrl, started⟩ mbuf
          else ⟨work.ctrl, started⟩)
          { work.session with pstSendMbuf := some mbuf, hResendTimer := true } packets ∧
        ∀ other ∈ packets, other = mbuf := by
    obtain ⟨packets, effect, all⟩ := sendWhen_effect outcome.rawCopy ⟨work.ctrl, started⟩ mbuf
    have whole := (Effect.of_session rfl rfl : Effect work ⟨work.ctrl, started⟩ started []).trans
      effect
    exact ⟨packets, whole.congr core, all⟩
  unfold sesRecordAndSendPkt sesStartResenderTimer
  cases timer : work.session.hResendTimer with
  | true =>
    right
    obtain ⟨packets, effect, all⟩ := sends { work.session with pstSendMbuf := some mbuf } (by
      simp only [SesNode.core, SesNode.attached, timer])
    exact ⟨rfl, packets, effect, all⟩
  | false =>
    cases outcome.createTimer with
    | true =>
      right
      obtain ⟨packets, effect, all⟩ := sends
        { work.session with hResendTimer := true, pstSendMbuf := some mbuf } rfl
      exact ⟨rfl, packets, effect, all⟩
    | false => exact .inl ⟨rfl, rfl⟩

theorem sesSendSynAck_effect (outcome : SesOutcome) (work : SesWork) :
    ((sesSendSynAck outcome work).2 ≠ .ok ∧ (sesSendSynAck outcome work).1 = work) ∨
      ((sesSendSynAck outcome work).2 = .ok ∧ ∃ packets, Effect work (sesSendSynAck outcome work).1
            { work.session with
              pstSendMbuf :=
                some (sesBuildProtocolPkt work.session (sesPktFlagSyn ||| sesPktFlagAck))
              hResendTimer := true } packets ∧
          ∀ mbuf ∈ packets,
            mbuf = sesBuildProtocolPkt work.session (sesPktFlagSyn ||| sesPktFlagAck)) := by
  unfold sesSendSynAck
  split
  · exact .inl ⟨nofun, rfl⟩
  rcases sesRecordAndSendPkt_effect outcome work
    (sesBuildProtocolPkt work.session (sesPktFlagSyn ||| sesPktFlagAck)) with
    ⟨failed, -⟩ | sends
  · rw [failed]
    exact .inl ⟨nofun, rfl⟩
  · exact .inr sends

theorem sesSynFlagIn_effect (outcome : SesOutcome) (head : SesPktHead) (work : SesWork) :
    ∃ packets, Effect work (sesSynFlagIn outcome head work) (work.session.learned head) packets ∧
      ∀ mbuf ∈ packets, mbuf = sesBuildProtocolPkt (work.session.learned head) sesPktFlagAck ∧
        head.has sesPktFlagSyn = true := by
  unfold sesSynFlagIn SesNode.learned
  cases syn : head.has sesPktFlagSyn with
  | false => exact ⟨[], .of_session rfl rfl, nofun⟩
  | true =>
    obtain ⟨packets, effect, all⟩ := sendWhen_effect outcome.buildPkt
      { work with session.uiPeerSesID := head.uiSrcSesId, session.uiCookie := head.uiCookie }
      (sesBuildProtocolPkt { work.session with
        uiPeerSesID := head.uiSrcSesId, uiCookie := head.uiCookie } sesPktFlagAck)
    refine ⟨packets, ⟨effect.core, effect.sessions, effect.recved, effect.sent⟩, ?_⟩
    exact fun mbuf inside => ⟨all mbuf inside, rfl⟩

theorem sesAckFlagIn_effect (outcome : SesOutcome) (head : SesPktHead) (work : SesWork) :
    Effect work (sesAckFlagIn outcome head work)
      (if head.has sesPktFlagAck ∧ work.session.Waits then work.session.established
        else work.session) [] := by
  unfold sesAckFlagIn
  cases ack : head.has sesPktFlagAck with
  | false => exact .of_session (by simp only [Bool.false_eq_true, false_and, if_false]) rfl
  | true =>
    simp only [if_true, true_and]
    cases status : work.session.uiStatus with
    | synSend =>
      rw [if_pos (.inl status)]
      exact .of_session (sesAck1Input_core outcome work.session) rfl
    | synRcvd =>
      rw [if_pos (.inr status)]
      exact .of_session (sesAck1Input_core outcome work.session) rfl
    | init | establish | closed =>
      have settled : ¬ work.session.Waits := by
        rw [SesNode.Waits, status]
        decide
      rw [if_neg settled]
      exact .of_session rfl rfl

theorem sesRstInput_core (opened : session.uiStatus ≠ .closed) :
    (sesRstInput session).core = session.aborted.core := by
  rw [sesRstInput, if_pos opened]
  exact sesAbort_core session

theorem learned_status (session : SesNode) (head : SesPktHead) :
    (session.learned head).uiStatus = session.uiStatus := by
  unfold SesNode.learned
  split <;> rfl

theorem learned_local (session : SesNode) (head : SesPktHead) :
    (session.learned head).uiLocalSesID = session.uiLocalSesID := by
  unfold SesNode.learned
  split <;> rfl

theorem acked_status {answered : SesNode} (opened : session.uiStatus ≠ .closed)
    (acked : answered = session.established ∨ answered = session) : answered.uiStatus ≠ .closed := by
  rcases acked with rfl | rfl
  · exact nofun
  · exact opened

theorem sesFlagsIn_effect (outcome : SesOutcome) (head : SesPktHead) (work : SesWork)
    (opened : work.session.uiStatus ≠ .closed) :
    ∃ packets, Effect work (sesFlagsIn outcome head work) (work.session.taken head) packets ∧
      ∀ mbuf ∈ packets, mbuf = sesBuildProtocolPkt (work.session.learned head) sesPktFlagAck ∧
        (head.has sesPktFlagSyn = true ∨ head.has sesPktFlagKeepAlive = true) := by
  obtain ⟨packets, synEffect, allSyn⟩ := sesSynFlagIn_effect outcome head work
  have ackEffect := sesAckFlagIn_effect outcome head (sesSynFlagIn outcome head work)
  have waits := core_waits synEffect.core
  -- The session after the flags `SYN` and `ACK`.
  obtain ⟨acked, isAcked, either⟩ : ∃ acked : SesNode,
      acked = (if head.has sesPktFlagAck ∧ (work.session.learned head).Waits then
        (work.session.learned head).established else work.session.learned head) ∧
      (acked = (work.session.learned head).established ∨ acked = work.session.learned head) := by
    refine ⟨_, rfl, ?_⟩
    split
    · exact .inl rfl
    · exact .inr rfl
  have openAcked := acked_status (by rw [learned_status]; exact opened) either
  have ackedEffect : Effect work (sesAckFlagIn outcome head (sesSynFlagIn outcome head work))
      acked packets := by
    have both := synEffect.trans ackEffect
    rw [append_nil] at both
    refine both.congr ?_
    rw [isAcked]
    simp only [waits]
    split
    · exact core_established synEffect.core
    · exact synEffect.core
  have built (usPktFlag : USHORT) : sesBuildProtocolPkt acked usPktFlag =
      sesBuildProtocolPkt (work.session.learned head) usPktFlag := by
    rcases either with same | same <;> rw [same] <;> rfl
  -- The answer to the flag `KEEPALIVE`.
  obtain ⟨answers, answerEffect, allAnswer⟩ : ∃ answers, Effect work
      (if head.has sesPktFlagKeepAlive then sesKeepAliveInput outcome
        (sesAckFlagIn outcome head (sesSynFlagIn outcome head work))
        else sesAckFlagIn outcome head (sesSynFlagIn outcome head work)) acked answers ∧
      ∀ mbuf ∈ answers, mbuf = sesBuildProtocolPkt (work.session.learned head) sesPktFlagAck ∧
        (head.has sesPktFlagSyn = true ∨ head.has sesPktFlagKeepAlive = true) := by
    split
    · next keepAlive =>
      obtain ⟨answers, effect, all⟩ := sendWhen_effect outcome.buildNext
        (sesAckFlagIn outcome head (sesSynFlagIn outcome head work))
        (sesBuildProtocolPkt (sesAckFlagIn outcome head (sesSynFlagIn outcome head work)).session
          sesPktFlagAck)
      refine ⟨packets ++ answers, (ackedEffect.trans effect).congr ackedEffect.core, ?_⟩
      intro mbuf inside
      rcases mem_append.mp inside with old | new
      · exact ⟨(allSyn mbuf old).1, .inl (allSyn mbuf old).2⟩
      · refine ⟨(all mbuf new).trans ?_, .inr keepAlive⟩
        rw [sesBuildProtocolPkt_core ackedEffect.core, built]
    · exact ⟨packets, ackedEffect, fun mbuf inside =>
        ⟨(allSyn mbuf inside).1, .inl (allSyn mbuf inside).2⟩⟩
  refine ⟨answers, ?_, allAnswer⟩
  unfold sesFlagsIn SesNode.taken
  simp only [← isAcked]
  split
  · refine ⟨?_, answerEffect.sessions, answerEffect.recved, answerEffect.sent⟩
    have openAnswered := openAcked
    rw [← core_status answerEffect.core] at openAnswered
    exact (sesRstInput_core openAnswered).trans (core_aborted answerEffect.core)
  · exact answerEffect

end MyCode.Ses
